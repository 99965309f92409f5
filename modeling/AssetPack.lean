import AssetPack.Bytes
import AssetPack.CommandLine
import AssetPack.Console
import AssetPack.Container.Entry
import AssetPack.Container.Index
import AssetPack.Cursor
import AssetPack.Decimal.Binary
import AssetPack.Decimal.Shortest
import AssetPack.Decoder
import AssetPack.Extraction
import AssetPack.FileTree
import AssetPack.Log
import AssetPack.Main
import AssetPack.Mapping
import AssetPack.Md5
import AssetPack.Medium
import AssetPack.Notice
import AssetPack.Path
import AssetPack.Proofs.Advance
import AssetPack.Proofs.Conduct
import AssetPack.Proofs.Container.RoundTrip
import AssetPack.Proofs.Container.Storage
import AssetPack.Proofs.Container.Table
import AssetPack.Proofs.Containment
import AssetPack.Proofs.Counts
import AssetPack.Proofs.Extraction.Accounting
import AssetPack.Proofs.Extraction.Artifact
import AssetPack.Proofs.Extraction.Delivery
import AssetPack.Proofs.Extraction.Footprint
import AssetPack.Proofs.Extraction.Installation
import AssetPack.Proofs.Extraction.Locality
import AssetPack.Proofs.Extraction.Log
import AssetPack.Proofs.Extraction.Order
import AssetPack.Proofs.Extraction.Repetition
import AssetPack.Proofs.Extraction.Unpacking
import AssetPack.Proofs.FileTree
import AssetPack.Proofs.FileTree.Alteration
import AssetPack.Proofs.FileTree.Clearing
import AssetPack.Proofs.FileTree.Creation
import AssetPack.Proofs.FileTree.Installing
import AssetPack.Proofs.FileTree.Paving
import AssetPack.Proofs.FileTree.Removal
import AssetPack.Proofs.Limits
import AssetPack.Proofs.Names
import AssetPack.Proofs.Path
import AssetPack.Proofs.Path.Contained
import AssetPack.Proofs.Placement
import AssetPack.Proofs.Range
import AssetPack.Proofs.Reading
import AssetPack.Proofs.Run.Afresh
import AssetPack.Proofs.Run.Frame
import AssetPack.Proofs.Run.Outcome
import AssetPack.Proofs.Script.Alignment
import AssetPack.Proofs.Script.ConstantPool
import AssetPack.Proofs.Script.ConstantText
import AssetPack.Proofs.Script.LineMap
import AssetPack.Proofs.Script.Lines
import AssetPack.Proofs.Script.Listing
import AssetPack.Proofs.Script.PayloadLength
import AssetPack.Proofs.Script.Record
import AssetPack.Proofs.Script.Report
import AssetPack.Proofs.Script.RoundTrip
import AssetPack.Proofs.Script.Sections
import AssetPack.Proofs.Script.Storage
import AssetPack.Proofs.Script.Widening
import AssetPack.Proofs.Shortfall
import AssetPack.Proofs.Stopping
import AssetPack.Proofs.Text.Numeral
import AssetPack.Proofs.Text.Padding
import AssetPack.Proofs.Text.Utf8
import AssetPack.Proofs.Word
import AssetPack.Run
import AssetPack.Script.Builtin
import AssetPack.Script.Constant
import AssetPack.Script.Error
import AssetPack.Script.Identifier
import AssetPack.Script.LineMap
import AssetPack.Script.Listing
import AssetPack.Script.Opcode
import AssetPack.Script.Record
import AssetPack.Script.Report
import AssetPack.Script.Token
import AssetPack.Script.ValueKind
import AssetPack.Text.ControlSequence
import AssetPack.Text.Numeral
import AssetPack.Text.Quoted
import AssetPack.Text.Unprinted
import AssetPack.Text.Utf8
import AssetPack.Proofs.Mapping
