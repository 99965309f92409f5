import AssetPack.Log
import AssetPack.Script.Error
import AssetPack.Text.Quoted

/-!
# Notices

Everything the library has to say while it works, as data. A decoder or an extraction returns the
notices it gave, in order; `Notice.level` and `Notice.message` turn each into a log record. Keeping
the cause and not the text is what lets a statement count the notices of one sort.
-/

namespace AssetPack

open Script

/-- Something worth logging. -/
inductive Notice where
  /-- The record's bytecode version is not the one the tables were written for. -/
  | unexpectedVersion (found known : UInt32)
  /-- A script header was read at an absolute offset. -/
  | scriptHeader (offset : Nat) (version identifiers constants lines tokens : UInt32)
  /-- A constant was read; `pos` counts from the start of the range. -/
  | constantRead (kind : ValueKind) (wide : Bool) (pos payloadLength : Nat)
  /-- A line map entry took the place of an earlier one. -/
  | lineReplaced (token : Int32) (before after : UInt32)
  /-- A script record ends at an absolute offset. -/
  | scriptEnd (offset : Nat)
  /-- A token stream was written out. -/
  | listed (tokens indent : Nat)
  /-- A container was opened. -/
  | opened (path : String) (size : Nat)
  /-- The index of a container was read. -/
  | indexRead (entries pos : Nat)
  /-- What the header of a container says. -/
  | packSummary (formatVersion : UInt32) (engineVersion : String) (files : UInt32)
  /-- The output directory exists and is about to go. -/
  | removing (directory : String)
  /-- An asset name that would leave the output directory. -/
  | escapingName (asset : String)
  /-- An asset whose bytes are not all in the container. -/
  | outOfRange (asset : String) (error : Bounds)
  /-- An asset whose bytes do not have the stored digest. -/
  | checksumMismatch (asset : String)
  /-- An asset was copied. -/
  | copied (asset target : String) (size : UInt64)
  /-- An asset, or what was made from it, could not be stored. -/
  | storeFailed (asset reason : String)
  /-- A script that could not be decoded or written out. -/
  | undecodable (asset : String) (error : ScriptError)
  /-- A script record that is shorter than its asset. -/
  | lengthDiffers (asset : String) (recordLength : Nat) (assetSize : UInt64)
  /-- A report that could not be made. -/
  | reportFailed (asset : String) (error : ListingError)
  /-- The end of a run. -/
  | finished (extracted : Nat) (output : String) (decompiled failures : Nat)
  deriving DecidableEq, Repr

namespace Notice

/-- The severity of a notice. -/
def level : Notice → Level
  | unexpectedVersion .. => .warn
  | scriptHeader .. => .debug
  | constantRead .. => .trace
  | lineReplaced .. => .debug
  | scriptEnd .. => .trace
  | listed .. => .trace
  | opened .. => .debug
  | indexRead .. => .debug
  | packSummary .. => .info
  | removing .. => .info
  | escapingName .. => .error
  | outOfRange .. => .warn
  | checksumMismatch .. => .warn
  | copied .. => .debug
  | storeFailed .. => .error
  | undecodable .. => .warn
  | lengthDiffers .. => .debug
  | reportFailed .. => .warn
  | finished .. => .info

/-- The text of a notice. -/
def message : Notice → String
  | unexpectedVersion found known =>
    s!"unexpected bytecode version {found.toNat} (known: {known.toNat}), output may be wrong"
  | scriptHeader offset version identifiers constants lines tokens =>
    s!"script header at 0x{Numeral.hex offset}: version={version.toNat} " ++
      s!"identifiers={identifiers.toNat} constants={constants.toNat} lines={lines.toNat} " ++
      s!"tokens={tokens.toNat}"
  | constantRead kind wide pos payloadLength =>
    s!"constant {kind.name} (wide={wide}) at 0x{Numeral.hex pos}: {payloadLength} payload bytes"
  | lineReplaced token before after =>
    s!"line map entry for token {Numeral.signed token.toInt} replaced " ++
      s!"({before.toNat} -> {after.toNat})"
  | scriptEnd offset => s!"script record ends at 0x{Numeral.hex offset}"
  | listed tokens indent => s!"re-linearized {tokens} tokens, final indent {indent}"
  | opened path size => s!"mapped {Quoted.text path} ({size} bytes)"
  | indexRead entries pos => s!"read {entries} pack entries, index ends at 0x{Numeral.hex pos}"
  | packSummary formatVersion engineVersion files =>
    s!"pack format {formatVersion.toNat}, engine {engineVersion}, {files.toNat} files"
  | removing directory => s!"removing existing output directory {directory}"
  | escapingName asset => s!"{asset}: asset path escapes the output directory, skipped"
  | outOfRange asset error => s!"{asset}: {error.message}"
  | checksumMismatch asset => s!"{asset}: md5 mismatch"
  | copied asset target size => s!"{asset} -> {target} ({size.toNat} bytes)"
  | storeFailed asset reason => s!"{asset}: {reason}"
  | undecodable asset error => s!"{asset}: {error.message}"
  | lengthDiffers asset recordLength assetSize =>
    s!"{asset}: record is {recordLength} bytes, asset is {assetSize.toNat}"
  | reportFailed asset error => s!"{asset}: dump failed: {error.message}"
  | finished extracted output decompiled failures =>
    s!"extracted {extracted} assets to {output}, decompiled {decompiled} scripts, " ++
      s!"{failures} failures"

end Notice

end AssetPack
