import AssetPack.Proofs.Script.ConstantPool
import AssetPack.Proofs.Text.Numeral
import AssetPack.Proofs.Text.Padding

/-!
# What the text of a constant tells

A constant is written in its source form if it has one, and else as the bytes of its payload. The
source form depends on the payload having the right length, so for a constant of any origin it may
be missing. A constant that was read has the payload that its kind prescribes, and then the text
tells the payload again: a number can be read back from its numeral, and bytes from their dump. A
string shows its text, a truth value only whether its first byte is zero.

Reals are left out: their text tells the value and not the bits, since all NaNs look alike.

## Main definitions

* `ValueKind.IsDumped`: the kinds that have no source form.

## Main results

* `Constant.text_of_int`, `Constant.text_of_bool`, `Constant.text_of_string`,
  `Constant.text_of_isDumped`: the text of a payload of the right length.
* `Constant.text_int`, `Constant.text_int64`, `Constant.text_string`: the text of a value.
* `Constant.text_loses_nothing`: what the text of a constant that was read tells.
-/

namespace AssetPack.Script

open LittleEndian (signedValue)

/-- The kinds that have no source form. -/
def ValueKind.IsDumped (kind : ValueKind) : Prop :=
  kind ≠ .nil ∧ kind ≠ .bool ∧ kind ≠ .int ∧ kind ≠ .real ∧ kind ≠ .string

instance (kind : ValueKind) : Decidable kind.IsDumped :=
  inferInstanceAs (Decidable (_ ∧ _ ∧ _ ∧ _ ∧ _))

namespace Constant

variable {k : Constant}

/-! ### Payloads of the right length -/

theorem text_of_sourceText? {s : String} (h : k.sourceText? = some s) : k.text = s := by
  rw [text, h, Option.getD_some]

theorem text_of_int (hkind : k.kind = .int)
    (hlength : k.payload.length = if k.wide then 8 else 4) :
    k.text = Numeral.signed (signedValue k.payload) := by
  apply text_of_sourceText?
  rw [sourceText?, hkind]
  show integerText? k.wide k.payload = _
  cases hwide : k.wide with
  | true =>
    have hlength : k.payload.length = 8 := by simpa [hwide] using hlength
    rw [integerText?, if_pos rfl, if_pos hlength,
      LittleEndian.toInt_toInt64_ofNat_decode hlength]
  | false =>
    have hlength : k.payload.length = 4 := by simpa [hwide] using hlength
    rw [integerText?, if_neg Bool.false_ne_true, if_pos hlength,
      LittleEndian.toInt_toInt32_ofNat_decode hlength]

theorem text_of_bool {b : UInt8} {rest : Bytes} (hkind : k.kind = .bool)
    (hpayload : k.payload = b :: rest) : k.text = if b ≠ 0 then "True" else "False" := by
  apply text_of_sourceText?
  simp [sourceText?, hkind, hpayload]

theorem text_of_string {length raw : Bytes} (hkind : k.kind = .string)
    (hlength : length.length = 4) (hpayload : k.payload = length ++ raw) :
    k.text = "\"" ++ Utf8.text raw ++ "\"" := by
  have hle : 4 ≤ k.payload.length := by
    rw [hpayload, List.length_append]
    omega
  apply text_of_sourceText?
  rw [sourceText?, hkind]
  show stringText? k.payload = _
  rw [stringText?, if_pos hle, hpayload, List.drop_left' hlength]

theorem text_of_isDumped (h : k.kind.IsDumped) : k.text = Numeral.hexBytes k.payload := by
  obtain ⟨hnil, hbool, hint, hreal, hstring⟩ := h
  have hnone : k.sourceText? = none := by
    rw [sourceText?]
    split
    · next heq => exact absurd heq hnil
    · next heq => exact absurd heq hbool
    · next heq => exact absurd heq hint
    · next heq => exact absurd heq hreal
    · next heq => exact absurd heq hstring
    · rfl
  rw [text, hnone, Option.getD_none]

/-! ### Constants that are made from a value -/

theorem text_int (v : Int32) : (int v).text = toString v.toInt := by
  rw [text_of_int rfl (LittleEndian.length_word _), ← Numeral.signed_eq_toString]
  exact congrArg Numeral.signed (LittleEndian.signedValue_word v)

theorem text_int64 (v : Int64) : (int64 v).text = toString v.toInt := by
  rw [text_of_int rfl (LittleEndian.length_long _), ← Numeral.signed_eq_toString]
  exact congrArg Numeral.signed (LittleEndian.signedValue_long v)

theorem text_string {s : String} (h : s.toList.getLast? ≠ some (Char.ofNat 0)) :
    (string s).text = "\"" ++ s ++ "\"" := by
  have htext := Utf8.text_ofText_nuls h 0
  rw [List.replicate_zero, List.append_nil] at htext
  rw [text_of_string rfl (LittleEndian.length_encode 4 _) rfl, htext]

/-! ### Constants that were read -/

section Read

variable {c : Cursor} (h : (decode.run c).outcome = .ok k)

include h

theorem holds_of_decode : ∃ position, k.kind.layout.Holds k.wide position k.payload := by
  obtain ⟨base, pos, rest⟩ := c
  obtain ⟨_, _, -, ⟨pad, hholds, -, -⟩, -⟩ := reads_decode.sound h
  exact ⟨_, hholds⟩

/-- A number that was read has the width that its flag says, so its text is a numeral. A numeral has
no blanks, unlike the dump of two bytes or more. -/
theorem text_of_decode_int (hkind : k.kind = .int) :
    k.payload.length = (if k.wide then 8 else 4) ∧
      k.text = Numeral.signed (signedValue k.payload) ∧ k.text ≠ Numeral.hexBytes k.payload := by
  obtain ⟨position, hholds⟩ := holds_of_decode h
  rw [hkind] at hholds
  have hlength : k.payload.length = if k.wide then 8 else 4 := hholds
  have htext := text_of_int hkind hlength
  refine ⟨hlength, htext, fun heq => ?_⟩
  have htwo : 2 ≤ k.payload.length := by
    rw [hlength]
    split <;> omega
  have hblank := Numeral.blank_mem_hexBytes htwo
  rw [← heq, htext] at hblank
  exact Numeral.blank_not_mem_signed _ hblank

theorem text_of_decode_bool (hkind : k.kind = .bool) :
    ∃ b rest, k.payload = b :: rest ∧ k.text = if b ≠ 0 then "True" else "False" := by
  obtain ⟨position, hholds⟩ := holds_of_decode h
  rw [hkind] at hholds
  have hlength : k.payload.length = 4 := hholds
  obtain ⟨b, rest, hpayload⟩ := List.exists_cons_of_length_pos (by omega : 0 < k.payload.length)
  exact ⟨b, rest, hpayload, text_of_bool hkind hpayload⟩

theorem text_of_decode_string (hkind : k.kind = .string) :
    k.text = "\"" ++ Utf8.text (k.payload.drop 4) ++ "\"" := by
  obtain ⟨position, hholds⟩ := holds_of_decode h
  rw [hkind] at hholds
  obtain ⟨length, raw, -, hpayload⟩ := hholds
  have hlength := LittleEndian.length_word length
  rw [text_of_string hkind hlength hpayload, hpayload, List.drop_left' hlength]

end Read

/-- **What the text of a constant that was read tells.** The numeral of a number is read back to the
payload in two's complement, and it is not the dump of the payload. A truth value is `True` exactly
if its first byte is not zero. A string in UTF-8 shows its text without the NULs at its end, between
quotes. All other kinds but nil and reals show a dump that is read back to the payload, so their
text tells two constants of one kind apart. In particular numbers and strings that are made from a
value show that value. -/
theorem text_loses_nothing :
    (∀ (c : Cursor) (k : Constant), (decode.run c).outcome = .ok k →
      (k.kind = .int →
        k.payload.length = (if k.wide then 8 else 4) ∧ Numeral.IsDecimal k.text ∧
        Numeral.readDecimal? k.text = some (signedValue k.payload) ∧
        k.text ≠ Numeral.hexBytes k.payload) ∧
      (k.kind = .bool → ∃ b rest, k.payload = b :: rest ∧ (k.text = "True" ↔ b ≠ 0) ∧
        (k.text = "False" ↔ b = 0)) ∧
      (k.kind = .string → ∀ s, k.payload.drop 4 = Bytes.ofText s →
        ∃ t n, s.toList = t.toList ++ List.replicate n (Char.ofNat 0) ∧
          t.toList.getLast? ≠ some (Char.ofNat 0) ∧ k.text = "\"" ++ t ++ "\"") ∧
      (k.kind.IsDumped →
        Numeral.IsHexDump k.text ∧ Numeral.readHexBytes? k.text = some k.payload)) ∧
    (∀ (c c' : Cursor) (k k' : Constant), (decode.run c).outcome = .ok k →
      (decode.run c').outcome = .ok k' → k.kind = k'.kind → k.kind.IsDumped →
      k.text = k'.text → k.payload = k'.payload) ∧
    (∀ v : Int32, (int v).text = toString v.toInt) ∧
    (∀ v : Int64, (int64 v).text = toString v.toInt) ∧
    ∀ s : String, s.toList.getLast? ≠ some (Char.ofNat 0) →
      (string s).text = "\"" ++ s ++ "\"" := by
  refine ⟨fun c k h => ⟨fun hkind => ?_, fun hkind => ?_, fun hkind s hs => ?_, fun hkind => ?_⟩,
    fun c c' k k' _ _ hkind hdumped heq => ?_, text_int, text_int64, fun s => text_string⟩
  · obtain ⟨hlength, htext, hne⟩ := text_of_decode_int h hkind
    rw [htext] at hne ⊢
    exact ⟨hlength, Numeral.isDecimal_signed _, Numeral.readDecimal?_signed _, hne⟩
  · obtain ⟨b, rest, hpayload, htext⟩ := text_of_decode_bool h hkind
    refine ⟨b, rest, hpayload, ?_⟩
    rw [htext]
    by_cases hb : b = 0
    · simp [hb]
    · simp [hb]
  · obtain ⟨n, hn⟩ := Utf8.exists_eq_trimNuls_append s.toList
    refine ⟨String.ofList (Utf8.trimNuls s.toList), n, by rwa [String.toList_ofList], ?_, ?_⟩
    · rw [String.toList_ofList]
      exact Utf8.getLast?_trimNuls _
    · rw [text_of_decode_string h hkind, hs, Utf8.text_ofText]
  · rw [text_of_isDumped hkind]
    exact ⟨Numeral.isHexDump_hexBytes _, Numeral.readHexBytes?_hexBytes _⟩
  · have hread := Numeral.readHexBytes?_hexBytes k.payload
    rw [← text_of_isDumped hdumped, heq, text_of_isDumped (hkind ▸ hdumped),
      Numeral.readHexBytes?_hexBytes, Option.some.injEq] at hread
    exact hread.symm

/-- A wide −2, a truth value that is neither zero nor one, a string with a NUL at its end, and a
color, each read from its stored form. -/
theorem text_loses_nothing_stored :
    Numeral.readDecimal? (text ⟨.int, true, 0xFE :: List.replicate 7 0xFF⟩) = some (-2) ∧
    text ⟨.bool, false, [2, 0, 0, 0]⟩ = "True" ∧
    (∃ t n, "a\x00".toList = t.toList ++ List.replicate n (Char.ofNat 0) ∧
      t.toList.getLast? ≠ some (Char.ofNat 0) ∧
      text ⟨.string, false, [2, 0, 0, 0, 0x61, 0]⟩ = "\"" ++ t ++ "\"") ∧
    Numeral.readHexBytes? (text ⟨.color, false, [0xC0, 0, 0, 1]⟩) = some [0xC0, 0, 0, 1] ∧
    (int (-7)).text = "-7" ∧ (string "a").text = "\"a\"" := by
  obtain ⟨hread, -, hint, -, hstring⟩ := text_loses_nothing
  refine ⟨?_, ?_, ?_, ?_, hint (-7), hstring "a" (by decide)⟩
  · have hrun : (decode.run ⟨0, 0, [2, 0, 1, 0, 0xFE] ++ List.replicate 7 0xFF⟩).outcome =
        .ok ⟨.int, true, 0xFE :: List.replicate 7 0xFF⟩ := by decide
    exact ((hread _ _ hrun).1 rfl).2.2.1
  · have hrun : (decode.run ⟨0, 0, [1, 0, 0, 0, 2, 0, 0, 0]⟩).outcome =
        .ok ⟨.bool, false, [2, 0, 0, 0]⟩ := by decide
    obtain ⟨b, rest, hpayload, htrue, -⟩ := (hread _ _ hrun).2.1 rfl
    exact htrue.2 (by rw [← (List.cons.inj hpayload).1]; decide)
  · have hrun : (decode.run ⟨0, 0, [4, 0, 0, 0, 2, 0, 0, 0, 0x61, 0, 0, 0]⟩).outcome =
        .ok ⟨.string, false, [2, 0, 0, 0, 0x61, 0]⟩ := by decide
    exact (hread _ _ hrun).2.2.1 rfl "a\x00" (by decide)
  · have hrun : (decode.run ⟨0, 0, [14, 0, 0, 0, 0xC0, 0, 0, 1]⟩).outcome =
        .ok ⟨.color, false, [0xC0, 0, 0, 1]⟩ := by decide
    exact ((hread _ _ hrun).2.2.2 (by decide)).2

end Constant

end AssetPack.Script
