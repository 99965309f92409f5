import AssetPack.Proofs.Container.Storage
import AssetPack.Proofs.Script.ConstantText

/-!
# Stored names and strings are read without their padding

Three places of the formats hold a text with NULs behind it: identifiers, the names of assets, and
string constants. Identifiers are masked byte by byte, the others are stored as they are. All three
are read in the same way, so the laws of `Utf8.PaddedReading` hold at each of them: a text is read
back exactly, and how much padding there is makes no difference, not even behind bytes that are no
UTF-8.

For an identifier and for the name of an asset the laws are stated of the decoder, wherever the
stored form is and whatever follows it. A string constant shows its text between quotes.

## Main results

* `Script.Identifier.paddedReading_unmask`, `Script.Identifier.paddedReading_decode`
* `Container.Entry.paddedReading_decode`
* `Script.Constant.paddedReading_text`
* `names_padded`: all of them.
-/

namespace AssetPack

open Container Script
open Utf8 (PaddedReading)

/-! ### Identifiers -/

namespace Script.Identifier

theorem xor_key_xor_key (b : UInt8) : b ^^^ key ^^^ key = b := by
  rw [UInt8.xor_assoc, UInt8.xor_self, UInt8.xor_zero]

theorem paddedReading_unmask :
    PaddedReading (· ^^^ key) (fun _ => True) fun raw => some (unmask raw) :=
  .of_text xor_key_xor_key (fun _ _ => trivial) fun _ _ => rfl

/-- An identifier is read from its frame. -/
theorem paddedReading_decode (base pos : Nat) (tail : Bytes) :
    PaddedReading (· ^^^ key) (fun raw => raw.length < 2 ^ 32) fun raw =>
      (decode.run ⟨base, pos, frame raw ++ tail⟩).outcome.toOption := by
  refine .of_text xor_key_xor_key Nat.lt_of_le_of_lt fun raw hraw => ?_
  rw [(reads_decode.complete tail ⟨raw, hraw, rfl, rfl⟩).1]
  rfl

end Script.Identifier

/-! ### Names of assets -/

/-- An entry is read with its name, whatever the rest of it is. -/
theorem Container.Entry.paddedReading_decode (index base pos : Nat) {e : Entry} (hrange : e.InRange)
    (hdigest : e.digest.length = 16) {pad : Bytes → Bytes}
    (hpad : ∀ raw, Pads (base + pos + 4 + raw.length) (pad raw)) (tail : Bytes) :
    PaddedReading id (fun raw => raw.length < 2 ^ 32) fun raw =>
      ((decode index).run ⟨base, pos, e.encode raw (pad raw) ++ tail⟩).outcome.toOption.map
        Entry.name := by
  refine .of_text (fun _ => rfl) Nat.lt_of_le_of_lt fun raw hraw => ?_
  have hformat : format (base + pos) { e with name := Utf8.text raw } (e.encode raw (pad raw)) :=
    ⟨raw, pad raw, hraw, rfl, hpad raw, hrange.1, hrange.2, hdigest, rfl⟩
  rw [((reads_decode index).complete tail hformat).1, List.map_id]
  rfl

/-! ### String constants -/

/-- The text between two quotes. -/
def betweenQuotes? (s : String) : Option String :=
  match s.toList with
  | '"' :: rest => if rest.getLast? = some '"' then some (String.ofList rest.dropLast) else none
  | _ => none

theorem betweenQuotes?_quoted (s : String) : betweenQuotes? ("\"" ++ s ++ "\"") = some s := by
  have hchars : ("\"" ++ s ++ "\"").toList = '"' :: (s.toList ++ ['"']) := by simp
  rw [betweenQuotes?, hchars]
  simp

namespace Script.Constant

theorem paddedReading_text (wide : Bool) {length : Bytes} (hlength : length.length = 4) :
    PaddedReading id (fun _ => True) fun raw =>
      betweenQuotes? (text ⟨.string, wide, length ++ raw⟩) := by
  refine .of_text (fun _ => rfl) (fun _ _ => trivial) fun raw _ => ?_
  rw [text_of_string rfl hlength rfl, betweenQuotes?_quoted, List.map_id]

end Script.Constant

/-- **Names and strings are read without their padding.** The laws of padded texts hold of unmasking
and of identifiers that are read from a record, with the mask; and without a mask of the names of
assets and of the text that a string constant shows between quotes. -/
theorem names_padded :
    PaddedReading (· ^^^ 0xB6) (fun _ => True) (fun raw => some (Identifier.unmask raw)) ∧
    (∀ (base pos : Nat) (tail : Bytes),
      PaddedReading (· ^^^ 0xB6) (fun raw => raw.length < 2 ^ 32) fun raw =>
        (Identifier.decode.run ⟨base, pos, Identifier.frame raw ++ tail⟩).outcome.toOption) ∧
    (∀ (index base pos : Nat) (e : Entry), e.InRange → e.digest.length = 16 →
      ∀ pad : Bytes → Bytes, (∀ raw, Pads (base + pos + 4 + raw.length) (pad raw)) →
      ∀ tail : Bytes,
        PaddedReading id (fun raw => raw.length < 2 ^ 32) fun raw =>
          ((Entry.decode index).run
            ⟨base, pos, e.encode raw (pad raw) ++ tail⟩).outcome.toOption.map Entry.name) ∧
    ∀ (wide : Bool) (length : Bytes), length.length = 4 →
      PaddedReading id (fun _ => True) fun raw =>
        betweenQuotes? (Constant.text ⟨.string, wide, length ++ raw⟩) :=
  ⟨Identifier.paddedReading_unmask, Identifier.paddedReading_decode,
    fun index base pos _ hrange hdigest _ hpad tail =>
      Entry.paddedReading_decode index base pos hrange hdigest hpad tail,
    fun wide _ hlength => Constant.paddedReading_text wide hlength⟩

/-- An entry for a name to be put in. -/
def blankEntry : Entry := ⟨"", 0, 0, List.replicate 16 0⟩

/-- A sequence that breaks off is read the same with padding behind it, a name of an asset is read
back from its bytes, and a string constant keeps the NULs inside. -/
theorem names_padded_damaged :
    (Identifier.unmask [0x54, 0x34, 0xB6, 0xB6] = Identifier.unmask [0x54, 0x34] ∧
      Identifier.unmask [0x54, 0x34] = "\uFFFD") ∧
    (Identifier.decode.run ⟨8, 0, Identifier.frame [0xD7, 0xB6] ++ [1]⟩).outcome.toOption =
      some "a" ∧
    ((Entry.decode 0).run
      ⟨0, 0, blankEntry.encode [0x61, 0x62, 0, 0] [] ++ []⟩).outcome.toOption.map Entry.name =
        some "ab" ∧
    betweenQuotes? (Constant.text ⟨.string, false, [4, 0, 0, 0] ++ [0x61, 0, 0, 0x62]⟩) =
      some "a\x00\x00b" := by
  obtain ⟨hunmask, hidentifier, hentry, hconstant⟩ := names_padded
  have hpads : ∀ raw : Bytes, Pads (0 + 0 + 4 + raw.length)
      (List.replicate ((4 - (0 + 0 + 4 + raw.length) % 4) % 4) 0) := by
    intro raw
    rw [pads_iff, List.length_replicate]
  refine ⟨⟨Option.some.inj (hunmask.blind [0x54, 0x34] 2 trivial), by decide⟩, ?_, ?_, ?_⟩
  · exact (hidentifier 8 0 [1]).exact "a" 1 (by decide) (by decide)
  · have hreading := hentry 0 0 0 blankEntry ⟨by decide, by decide⟩ rfl _ hpads []
    exact hreading.exact "ab" 2 (by decide) (by decide)
  · exact (hconstant false [4, 0, 0, 0] rfl).inner [0x61] [0x62] 1 "a" "b" (by decide) trivial
      (by decide) (by decide) (by decide)

end AssetPack
