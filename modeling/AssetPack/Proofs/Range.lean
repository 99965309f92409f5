import AssetPack.Medium
import Mathlib.Algebra.Group.Nat.Defs

/-!
# Ranges of a medium

A range is asked for by an offset and a length that come from untrusted 64-bit words. What it is can
be said without computing: bytes of the medium with so many in front of them, and as many as asked,
or all that follow (`Medium.Cuts`). It is given exactly if there are such bytes.

The words can add up to more than a word holds. That does no harm: an offset behind the end of the
medium leaves nothing available, and the end of a range is added up only where it is known to lie
inside the medium. So the same comes out in 64-bit words, as long as the medium has a length that is
one (`Medium.rangeInWords_eq`).

## Main definitions

* `Medium.Cuts`: the bytes of a range.
* `Medium.rangeInWords`: the range as 64-bit words compute it.

## Main results

* `Medium.range_eq_ok_iff`: what a range is.
* `Medium.range_eq_error`: what a refusal says.
* `Medium.rangeInWords_eq`: nothing wraps around.
-/

namespace AssetPack

namespace Medium

variable {m : Medium} {offset : UInt64} {length : Option UInt64}

/-- The bytes stand in the medium at the offset, and are as many as asked, or all that follow. -/
def Cuts (m : Medium) (offset : UInt64) (length : Option UInt64) (bytes : Bytes) : Prop :=
  ∃ front back, m.data = front ++ bytes ++ back ∧ front.length = offset.toNat ∧
    match length with
    | some n => bytes.length = n.toNat
    | none => back = []

/-- The range lies inside the medium. -/
def Inside (m : Medium) (offset : UInt64) (length : Option UInt64) : Prop :=
  offset.toNat ≤ m.data.length ∧ ∀ n ∈ length, offset.toNat + n.toNat ≤ m.data.length

/-- How many bytes a range has if it is inside the medium. -/
def extent (m : Medium) (offset : UInt64) (length : Option UInt64) : Nat :=
  (length.map UInt64.toNat).getD (m.data.length - offset.toNat)

theorem inside_iff :
    m.Inside offset length ↔ offset.toNat ≤ m.data.length ∧
      m.extent offset length ≤ m.data.length - offset.toNat := by
  cases length with
  | none => simp [Inside, extent]
  | some n =>
    simp only [Inside, extent, Option.mem_some_iff, forall_eq', Option.map_some, Option.getD_some]
    omega

theorem range_of_inside (h : m.Inside offset length) :
    m.range offset length = .ok ((m.data.drop offset.toNat).take (m.extent offset length)) := by
  obtain ⟨hoffset, hextent⟩ := inside_iff.mp h
  rw [extent] at hextent ⊢
  simp only [range]
  rw [if_neg (by omega)]

theorem range_of_le {n : UInt64} (h : offset.toNat + n.toNat ≤ m.data.length) :
    m.range offset (some n) = .ok ((m.data.drop offset.toNat).take n.toNat) := by
  refine range_of_inside ⟨Nat.le_of_add_right_le h, fun k hk => ?_⟩
  cases hk
  exact h

theorem range_of_not_inside (h : ¬ m.Inside offset length) :
    m.range offset length =
      .error ⟨offset.toNat, m.extent offset length, m.data.length - offset.toNat⟩ := by
  rw [inside_iff, extent] at h
  rw [extent]
  simp only [range]
  rw [if_pos (by omega)]

theorem cuts_of_inside (h : m.Inside offset length) :
    m.Cuts offset length ((m.data.drop offset.toNat).take (m.extent offset length)) := by
  obtain ⟨hoffset, hextent⟩ := inside_iff.mp h
  refine ⟨m.data.take offset.toNat, (m.data.drop offset.toNat).drop (m.extent offset length), ?_,
    List.length_take_of_le hoffset, ?_⟩
  · rw [List.append_assoc, List.take_append_drop, List.take_append_drop]
  · cases length with
    | none => exact List.drop_eq_nil_of_le (Nat.le_of_eq List.length_drop)
    | some n => exact List.length_take_of_le (by rwa [List.length_drop])

theorem Cuts.inside {bytes : Bytes} (h : m.Cuts offset length bytes) : m.Inside offset length := by
  obtain ⟨front, back, hdata, hfront, hlength⟩ := h
  have htotal : m.data.length = offset.toNat + bytes.length + back.length := by
    rw [hdata, List.length_append, List.length_append, hfront]
  refine ⟨by omega, fun n hn => ?_⟩
  obtain rfl : length = some n := hn
  simp only at hlength
  omega

theorem Cuts.eq {bytes : Bytes} (h : m.Cuts offset length bytes) :
    bytes = (m.data.drop offset.toNat).take (m.extent offset length) := by
  obtain ⟨front, back, hdata, hfront, hlength⟩ := h
  rw [extent, hdata, ← hfront, List.append_assoc, List.drop_left]
  cases length with
  | none =>
    obtain rfl : back = [] := hlength
    simp
  | some n =>
    obtain hlength : bytes.length = n.toNat := hlength
    rw [Option.map_some, Option.getD_some, ← hlength, List.take_left]

/-- **A range is what it says.** -/
theorem range_eq_ok_iff {bytes : Bytes} :
    m.range offset length = .ok bytes ↔ m.Cuts offset length bytes := by
  by_cases h : m.Inside offset length
  · rw [range_of_inside h, Except.ok.injEq]
    constructor
    · rintro rfl
      exact cuts_of_inside h
    · intro hcuts
      exact hcuts.eq.symm
  · rw [range_of_not_inside h]
    constructor
    · intro herror
      cases herror
    · intro hcuts
      exact absurd hcuts.inside h

theorem exists_range_iff : (∃ bytes, m.range offset length = .ok bytes) ↔ m.Inside offset length :=
  ⟨fun ⟨_, h⟩ => (range_eq_ok_iff.mp h).inside, fun h => ⟨_, range_of_inside h⟩⟩

/-- **What a refusal says.** Nothing is available behind the end. -/
theorem range_eq_error {e : Bounds} (h : m.range offset length = .error e) :
    e.offset = offset.toNat ∧
      (e.available : Int) = max ((m.data.length : Int) - (offset.toNat : Int)) 0 ∧
      e.length = (length.map UInt64.toNat).getD e.available := by
  have houtside : ¬ m.Inside offset length := fun hinside => by
    rw [range_of_inside hinside] at h
    cases h
  rw [range_of_not_inside houtside] at h
  cases h
  refine ⟨rfl, ?_, rfl⟩
  change ((m.data.length - offset.toNat : Nat) : Int) = _
  omega

/-- A cursor over a range of a medium ends inside the medium. -/
theorem position_add_remaining_le {c : Cursor} (h : m.cursor offset length = .ok c) :
    c.position + c.remaining ≤ m.data.length := by
  rw [cursor] at h
  cases hrange : m.range offset length with
  | error e =>
    rw [hrange] at h
    cases h
  | ok bytes =>
    rw [hrange] at h
    cases h
    obtain ⟨front, back, hdata, hfront, -⟩ := range_eq_ok_iff.mp hrange
    rw [hdata, List.length_append, List.length_append, hfront]
    exact Nat.le_add_right _ _

/-- The range as 64-bit words compute it. The difference stops at zero, the sum wraps around. -/
def rangeInWords (m : Medium) (offset : UInt64) (length : Option UInt64) : Except Bounds Bytes :=
  let total := UInt64.ofNat m.data.length
  let available := if offset ≤ total then total - offset else 0
  let wanted := length.getD available
  if total < offset ∨ available < wanted then
    .error ⟨offset.toNat, wanted.toNat, available.toNat⟩
  else .ok ((m.data.take (offset + wanted).toNat).drop offset.toNat)

/-- **Nothing wraps around**, whatever the offset and the length. -/
theorem rangeInWords_eq (h : m.data.length < 2 ^ 64) (offset : UInt64) (length : Option UInt64) :
    m.rangeInWords offset length = m.range offset length := by
  have htotal : (UInt64.ofNat m.data.length).toNat = m.data.length := by
    rw [UInt64.toNat_ofNat', Nat.mod_eq_of_lt h]
  simp only [rangeInWords]
  generalize UInt64.ofNat m.data.length = total at htotal
  generalize havailable : (if offset ≤ total then total - offset else 0) = available
  have hleft : available.toNat = m.data.length - offset.toNat := by
    rw [← havailable]
    split
    · next hle => rw [UInt64.toNat_sub_of_le _ _ hle, htotal]
    · next hlt =>
      rw [UInt64.le_iff_toNat_le, htotal] at hlt
      rw [UInt64.toNat_zero]
      omega
  have hwanted : (length.getD available).toNat = m.extent offset length := by
    cases length with
    | none => exact hleft
    | some n => rfl
  generalize length.getD available = wanted at hwanted
  by_cases hinside : m.Inside offset length
  · rw [range_of_inside hinside]
    obtain ⟨hoffset, hextent⟩ := inside_iff.mp hinside
    have hend : (offset + wanted).toNat = offset.toNat + m.extent offset length := by
      rw [UInt64.toNat_add, hwanted, Nat.mod_eq_of_lt (by omega)]
    rw [if_neg, hend, List.drop_take, Nat.add_sub_cancel_left]
    rw [UInt64.lt_iff_toNat_lt, UInt64.lt_iff_toNat_lt, htotal, hleft, hwanted]
    omega
  · rw [range_of_not_inside hinside, if_pos, hwanted, hleft]
    rw [inside_iff] at hinside
    rw [UInt64.lt_iff_toNat_lt, UInt64.lt_iff_toNat_lt, htotal, hleft, hwanted]
    omega

end Medium

end AssetPack
