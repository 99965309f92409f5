import AssetPack.Decoder
import AssetPack.Text.Utf8

/-!
# Identifiers

An identifier is stored as a length word and that many bytes. The bytes are UTF-8 with NULs behind,
and each of them is masked with the same key.
-/

namespace AssetPack.Script.Identifier

/-- The key that masks every byte of a stored identifier. -/
def key : UInt8 := 0xB6

/-- Mask bytes, or undo the mask. -/
def mask (bytes : Bytes) : Bytes := bytes.map (· ^^^ key)

@[simp] theorem mask_mask (bytes : Bytes) : mask (mask bytes) = bytes := by
  have hcancel : ∀ b : UInt8, b ^^^ key ^^^ key = b := fun b => by
    rw [UInt8.xor_assoc, UInt8.xor_self, UInt8.xor_zero]
  simp only [mask, List.map_map, Function.comp_def, hcancel, List.map_id']

/-- The identifier that masked bytes spell. -/
def unmask (bytes : Bytes) : String := Utf8.text (mask bytes)

/-- Read an identifier. Length word and bytes are taken in one step, so the cursor moves only on
success and a truncation counts from the length word. -/
def decode : Decoder RecordError String := do
  let length ← Decoder.mapError (.truncated .identifierLength) Decoder.peekWord
  let bytes ← Decoder.mapError (.truncated .identifier) (Decoder.readBytes (4 + length.toNat))
  return unmask (bytes.drop 4)

end AssetPack.Script.Identifier
