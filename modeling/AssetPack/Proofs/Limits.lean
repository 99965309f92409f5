import AssetPack.Proofs.Advance
import AssetPack.Proofs.Range
import AssetPack.Proofs.Reading
import Mathlib.Order.Bounds.Basic

/-!
# Alignment, and arithmetic up to the last 64-bit word

Aligning a cursor leads it to the next absolute multiple: the least one that is not behind it. If
that lies behind the end of the range the cursor stays where it was, and either way aligning again
changes nothing.

Offsets, lengths and alignments come from 64-bit words, so every sum and every difference of them
could leave the words. None does: ranges need no more than that the medium has a length that is a
word, and alignment that the end of the cursor's range has an offset that is one, which is so for
every cursor over a range of such a medium. Rounding a word up to four goes right as long as there
is a multiple of four to round up to, and the last one is `2 ^ 64 - 4`.

## Main results

* `Cursor.isLeast_padding`: padding leads to the next multiple.
* `Decoder.run_align_of_le`, `Decoder.run_align_of_lt`, `Decoder.align_align`: alignment.
* `isLeast_roundUpToFour`, `Decoder.pos_align_four`: rounding up to four.
* `limits_exact`: ranges and alignment are exact.
-/

namespace AssetPack

/-! ### Alignment -/

namespace Cursor

/-- **Padding leads to the next multiple**: to the least one that is not behind the cursor. -/
theorem isLeast_padding (c : Cursor) {alignment : Nat} (h : 0 < alignment) :
    IsLeast {p | c.position ≤ p ∧ alignment ∣ p} (c.position + c.padding alignment) := by
  have hmod := Nat.mod_lt c.position h
  have hsplit := Nat.div_add_mod c.position alignment
  rw [padding]
  rcases Nat.eq_zero_or_pos (c.position % alignment) with hzero | hpos
  · rw [hzero, Nat.sub_zero, Nat.mod_self, Nat.add_zero]
    exact ⟨⟨Nat.le_refl _, Nat.dvd_of_mod_eq_zero hzero⟩, fun p hp => hp.1⟩
  · rw [Nat.mod_eq_of_lt (by omega)]
    -- the next multiple is one more of the alignment than fit below the cursor
    have hnext : c.position + (alignment - c.position % alignment) =
        alignment * (c.position / alignment + 1) := by
      rw [Nat.mul_succ]
      omega
    rw [hnext]
    refine ⟨⟨?_, Nat.dvd_mul_right _ _⟩, ?_⟩
    · rw [Nat.mul_succ]
      omega
    · rintro p ⟨hle, k, rfl⟩
      have hlt : alignment * (c.position / alignment) < alignment * k := by omega
      exact Nat.mul_le_mul_left alignment (Nat.lt_of_mul_lt_mul_left hlt)

end Cursor

namespace Decoder

variable {c : Cursor} {alignment : Nat}

theorem align_eq (h : 0 < alignment) : align alignment = mapError .bounds (alignTo alignment) := by
  rw [align, if_neg (Nat.ne_of_gt h)]

theorem run_align_of_le (h : 0 < alignment) (hle : c.padding alignment ≤ c.remaining) :
    (align alignment).run c = ⟨.ok (), c.advance (c.padding alignment), []⟩ := by
  have hskip : (alignTo alignment).run c = ⟨.ok (), c.advance (c.padding alignment), []⟩ :=
    run_skip_of_le hle
  rw [align_eq h, run_mapError, hskip]
  rfl

theorem run_align_of_lt (h : 0 < alignment) (hlt : c.remaining < c.padding alignment) :
    (align alignment).run c =
      ⟨.error (.bounds (c.shortfall (c.padding alignment))), c, []⟩ := by
  have hskip : (alignTo alignment).run c =
      ⟨.error (c.shortfall (c.padding alignment)), c, []⟩ := by
    change (skip (c.padding alignment)).run c = _
    rw [skip, run_bind_of_error _ (by rw [run_readBytes_of_lt hlt]), run_readBytes_of_lt hlt]
  rw [align_eq h, run_mapError, hskip]
  rfl

/-- **Aligning again changes nothing**, neither the cursor nor the result. -/
theorem align_align (h : 0 < alignment) (c : Cursor) :
    (align alignment).run ((align alignment).run c).cursor = (align alignment).run c := by
  rcases Nat.lt_or_ge c.remaining (c.padding alignment) with hlt | hle
  · rw [run_align_of_lt h hlt]
    exact run_align_of_lt h hlt
  · rw [run_align_of_le h hle]
    have hdvd : alignment ∣ (c.advance (c.padding alignment)).position := by
      have hmultiple := (c.isLeast_padding h).1.2
      rwa [Cursor.position, Nat.add_assoc] at hmultiple
    rw [align_eq h, run_mapError, run_alignTo_of_dvd hdvd]
    rfl

end Decoder

/-! ### Rounding up to four -/

/-- Clearing the two lowest bits. -/
theorem toNat_and_not_three (w : UInt64) : (w &&& ~~~3).toNat = w.toNat / 4 * 4 := by
  have hmask : (~~~3 : UInt64).toBitVec = BitVec.allOnes 64 <<< 2 := by decide
  have hlt := w.toNat_lt
  rw [← UInt64.toNat_toBitVec, UInt64.toBitVec_and, hmask, ← BitVec.shiftLeft_ushiftRight,
    BitVec.toNat_shiftLeft, BitVec.toNat_ushiftRight, UInt64.toNat_toBitVec,
    Nat.shiftRight_eq_div_pow, Nat.shiftLeft_eq]
  omega

theorem toNat_roundUpToFour {n : UInt64} (h : n.toNat ≤ 2 ^ 64 - 4) :
    (roundUpToFour n).toNat = (n.toNat + 3) / 4 * 4 := by
  rw [roundUpToFour, toNat_and_not_three, UInt64.toNat_add,
    show UInt64.toNat 3 = 3 from rfl, Nat.mod_eq_of_lt (by omega)]

theorem isLeast_roundUpToFour {n : UInt64} (h : n.toNat ≤ 2 ^ 64 - 4) :
    IsLeast {k | n.toNat ≤ k ∧ 4 ∣ k} (roundUpToFour n).toNat := by
  rw [toNat_roundUpToFour h]
  refine ⟨⟨by omega, Nat.dvd_mul_left 4 _⟩, ?_⟩
  rintro k ⟨hle, hdvd⟩
  omega

/-- In a range that begins the medium, alignment to four is rounding up the position. -/
theorem Decoder.pos_align_four {c : Cursor} (hbase : c.base = 0)
    (hfits : c.position + c.remaining < 2 ^ 64) (hok : ((align 4).run c).outcome = .ok ()) :
    ((align 4).run c).cursor.pos = (roundUpToFour (UInt64.ofNat c.pos)).toNat := by
  have hposition : c.position = c.pos := by rw [Cursor.position, hbase, Nat.zero_add]
  have hleast := c.isLeast_padding (show 0 < 4 by decide)
  rw [hposition] at hleast hfits
  rcases Nat.lt_or_ge c.remaining (c.padding 4) with hlt | hle
  · rw [run_align_of_lt (by decide) hlt] at hok
    cases hok
  · rw [run_align_of_le (by decide) hle]
    have hword : (UInt64.ofNat c.pos).toNat = c.pos := by
      rw [UInt64.toNat_ofNat', Nat.mod_eq_of_lt (by omega)]
    -- the cursor stays inside the range, so there is a multiple of four to round up to
    have hlast : (UInt64.ofNat c.pos).toNat ≤ 2 ^ 64 - 4 := by
      have hdvd := hleast.1.2
      rw [hword]
      omega
    have hround := isLeast_roundUpToFour hlast
    rw [hword] at hround
    exact hleast.unique hround

/-! ### The whole -/

/-- **Ranges and alignment are exact up to the last 64-bit word.** A range is given exactly if it
lies inside the medium, reckoned in whole numbers, and it is the bytes that stand there; a refusal
says how many bytes there are from the offset on, none if it is behind the end. Alignment leads to
the next absolute multiple if that is not behind the end of the range, and else leaves the cursor
where it was; aligning again changes nothing. In a range that begins the medium, alignment to four
is rounding the position up to four, which gives the next multiple of four of every word that has
one. In all of it 64-bit words compute what whole numbers do. -/
theorem limits_exact :
    (∀ (m : Medium) (offset : UInt64) (length : Option UInt64),
      ((∃ bytes, m.range offset length = .ok bytes) ↔
          offset.toNat ≤ m.data.length ∧
            ∀ n ∈ length, offset.toNat + n.toNat ≤ m.data.length) ∧
        (∀ bytes, m.range offset length = .ok bytes ↔ m.Cuts offset length bytes) ∧
        (∀ e, m.range offset length = .error e →
          e.offset = offset.toNat ∧
            (e.available : Int) = max ((m.data.length : Int) - (offset.toNat : Int)) 0 ∧
            e.length = (length.map UInt64.toNat).getD e.available) ∧
        (m.data.length < 2 ^ 64 → m.rangeInWords offset length = m.range offset length ∧
          ∀ c, m.cursor offset length = .ok c → c.position + c.remaining < 2 ^ 64)) ∧
    (∀ (c : Cursor) (alignment : UInt64), c.position + c.remaining < 2 ^ 64 → 1 ≤ alignment →
      (∃ target, IsLeast {p | c.position ≤ p ∧ alignment.toNat ∣ p} target ∧
        (target ≤ c.position + c.remaining →
          (Decoder.align alignment.toNat).run c = ⟨.ok (), c.advance (target - c.position), []⟩ ∧
            (c.advance (target - c.position)).position = target) ∧
        (c.position + c.remaining < target →
          (Decoder.align alignment.toNat).run c =
            ⟨.error (.bounds (c.shortfall (target - c.position))), c, []⟩)) ∧
        (Decoder.align alignment.toNat).run ((Decoder.align alignment.toNat).run c).cursor =
          (Decoder.align alignment.toNat).run c ∧
        c.FitsWords (c.pos + c.remaining)) ∧
    (∀ c : Cursor, c.base = 0 → c.position + c.remaining < 2 ^ 64 →
      ((Decoder.align 4).run c).outcome = .ok () →
      ((Decoder.align 4).run c).cursor.pos = (roundUpToFour (UInt64.ofNat c.pos)).toNat) ∧
    ∀ n : UInt64, n.toNat ≤ 2 ^ 64 - 4 →
      IsLeast {k | n.toNat ≤ k ∧ 4 ∣ k} (roundUpToFour n).toNat := by
  refine ⟨fun m offset length => ⟨Medium.exists_range_iff, fun _ => Medium.range_eq_ok_iff,
    fun _ => Medium.range_eq_error, fun h => ⟨Medium.rangeInWords_eq h offset length,
      fun _ hc => Nat.lt_of_le_of_lt (Medium.position_add_remaining_le hc) h⟩⟩,
    fun c alignment hfits hpositive => ?_, fun _ => Decoder.pos_align_four,
    fun _ => isLeast_roundUpToFour⟩
  have hpos : 0 < alignment.toNat := UInt64.le_iff_toNat_le.mp hpositive
  have hstep : c.position + c.padding alignment.toNat - c.position = c.padding alignment.toNat :=
    Nat.add_sub_cancel_left _ _
  refine ⟨⟨_, c.isLeast_padding hpos, fun hinside => ?_, fun hbehind => ?_⟩,
    Decoder.align_align hpos c, ?_⟩
  · rw [hstep]
    exact ⟨Decoder.run_align_of_le hpos (Nat.le_of_add_le_add_left hinside),
      (Nat.add_assoc _ _ _).symm⟩
  · rw [hstep]
    exact Decoder.run_align_of_lt hpos (Nat.lt_of_add_lt_add_left hbehind)
  · rw [Cursor.position] at hfits
    exact Cursor.fitsWords (Nat.add_comm _ _) (by omega)

/-- Five bytes. -/
def fiveBytes : Medium := ⟨[1, 2, 3, 4, 5]⟩

/-- A cursor whose range ends at the last offset that is a 64-bit word, with four bytes left. -/
def lastCursor : Cursor := ⟨2 ^ 64 - 8, 3, [0, 0, 0, 0]⟩

/-- A cursor in a range that begins the medium, one below the last multiple of four. -/
def longCursor : Cursor := ⟨0, 2 ^ 64 - 5, [0]⟩

theorem limits_exact_edge :
    -- as words, offset and length add up to zero
    (fiveBytes.data.length < 2 ^ 64 ∧
      fiveBytes.rangeInWords 3 (some (0 - 3)) = fiveBytes.range 3 (some (0 - 3)) ∧
      (∃ e, fiveBytes.range 3 (some (0 - 3)) = .error e ∧ (e.available : Int) = 2) ∧
      ∃ c, fiveBytes.cursor 3 (some 2) = .ok c ∧ c.position + c.remaining < 2 ^ 64) ∧
    (lastCursor.position + lastCursor.remaining < 2 ^ 64 ∧ (1 : UInt64) ≤ 4 ∧
      IsLeast {p | lastCursor.position ≤ p ∧ UInt64.toNat 4 ∣ p} (2 ^ 64 - 4) ∧
      (Decoder.align (UInt64.toNat 4)).run lastCursor = ⟨.ok (), lastCursor.advance 1, []⟩ ∧
      lastCursor.FitsWords 7) ∧
    (longCursor.base = 0 ∧ longCursor.position + longCursor.remaining < 2 ^ 64 ∧
      ((Decoder.align 4).run longCursor).outcome = .ok () ∧
      ((Decoder.align 4).run longCursor).cursor.pos =
        (roundUpToFour (UInt64.ofNat longCursor.pos)).toNat) ∧
    UInt64.toNat (0 - 4) ≤ 2 ^ 64 - 4 ∧
      IsLeast {k | UInt64.toNat (0 - 4) ≤ k ∧ 4 ∣ k} (roundUpToFour (0 - 4)).toNat := by
  obtain ⟨hranges, halign, hround, hleast⟩ := limits_exact
  have hlength : fiveBytes.data.length < 2 ^ 64 := by decide
  obtain ⟨-, -, hrefused, hwords⟩ := hranges fiveBytes 3 (some (0 - 3))
  obtain ⟨-, -, -, hcursors⟩ := hranges fiveBytes 3 (some 2)
  have herror : fiveBytes.range 3 (some (0 - 3)) = .error ⟨3, 2 ^ 64 - 3, 2⟩ := by rfl
  have hfits : lastCursor.position + lastCursor.remaining < 2 ^ 64 := by decide
  obtain ⟨⟨target, htarget, hinside, -⟩, -, hfitsWords⟩ := halign lastCursor 4 hfits (by decide)
  have hok : ((Decoder.align 4).run longCursor).outcome = .ok () := by rfl
  have hfour : target = 2 ^ 64 - 4 := by
    refine htarget.unique ⟨by decide, ?_⟩
    rintro p ⟨hle, hdvd⟩
    have hstart : 2 ^ 64 - 5 ≤ p := hle
    have hdvd : 4 ∣ p := hdvd
    omega
  subst hfour
  exact ⟨⟨hlength, (hwords hlength).1, ⟨_, herror, (hrefused _ herror).2.1⟩, _, rfl,
      (hcursors hlength).2 _ rfl⟩,
    ⟨hfits, by decide, htarget, (hinside (by decide)).1, hfitsWords⟩,
    ⟨rfl, by decide, hok, hround longCursor rfl (by decide) hok⟩,
    by decide, hleast (0 - 4) (by decide)⟩

end AssetPack
