import CpuTrace.Cpu.PowerPc
import CpuTrace.Cpu.Processor
import CpuTrace.Cpu.SlotIndex
import CpuTrace.Cpu.X86
import CpuTrace.Deflate.Bits
import CpuTrace.Deflate.Code
import CpuTrace.Deflate.Inflate
import CpuTrace.Deflate.Stream
import CpuTrace.Dump.Line
import CpuTrace.Dump.Listing
import CpuTrace.Dump.Publish
import CpuTrace.Dump.Reader
import CpuTrace.Dump.Reference
import CpuTrace.Dump.Statement
import CpuTrace.Emission
import CpuTrace.Fault
import CpuTrace.JsonValue
import CpuTrace.Layout.Basic
import CpuTrace.Layout.Leaf
import CpuTrace.Layout.Size
import CpuTrace.Layout.SlotTable
import CpuTrace.Log.Check
import CpuTrace.Log.Listing
import CpuTrace.Log.LlvmKind
import CpuTrace.Log.Reader
import CpuTrace.Main
import CpuTrace.Table
import CpuTrace.Text.Numeral
import CpuTrace.Text.Printable
import CpuTrace.Text.Quoted
import CpuTrace.Text.Unassigned
import CpuTrace.Text.Words
import CpuTrace.TypeExpr.Basic
import CpuTrace.TypeExpr.Printer
import CpuTrace.Wire.Json
import CpuTrace.Wire.Message
import CpuTrace.Wire.Parser
import CpuTrace.Wire.Record
import CpuTrace.Wire.Required
import CpuTrace.Wire.Schema
import CpuTrace.Wire.TextForm
import CpuTrace.Wire.Varint
import CpuTrace.Wire.Writer
import CpuTrace.Proofs.Agreement
import CpuTrace.Proofs.ArrayStatements
import CpuTrace.Proofs.ByValue
import CpuTrace.Proofs.Changes
import CpuTrace.Proofs.Containment
import CpuTrace.Proofs.Depth
import CpuTrace.Proofs.DimensionOrder
import CpuTrace.Proofs.DisjointMembers
import CpuTrace.Proofs.ElementSizes
import CpuTrace.Proofs.Emission
import CpuTrace.Proofs.GlobalVariables
import CpuTrace.Proofs.GraphMeaning
import CpuTrace.Proofs.GraphReading
import CpuTrace.Proofs.IndexView
import CpuTrace.Proofs.IntactChunks
import CpuTrace.Proofs.LeafPaths
import CpuTrace.Proofs.Lines
import CpuTrace.Proofs.ListingReading
import CpuTrace.Proofs.Literals
import CpuTrace.Proofs.LocalVariables
import CpuTrace.Proofs.LogLayout
import CpuTrace.Proofs.MemberTypes
import CpuTrace.Proofs.Merging
import CpuTrace.Proofs.MessageReading
import CpuTrace.Proofs.Nesting
import CpuTrace.Proofs.Numerals
import CpuTrace.Proofs.OpenStatements
import CpuTrace.Proofs.PlainTables
import CpuTrace.Proofs.Pruning
import CpuTrace.Proofs.Publishing
import CpuTrace.Proofs.Records
import CpuTrace.Proofs.Reencoding
import CpuTrace.Proofs.RowMajor
import CpuTrace.Proofs.Shape
import CpuTrace.Proofs.SlotNames
import CpuTrace.Proofs.Spine
import CpuTrace.Proofs.Statements
import CpuTrace.Proofs.Table
import CpuTrace.Proofs.TextFaults
import CpuTrace.Proofs.TypeGrammar
import CpuTrace.Proofs.TypeGraph
import CpuTrace.Proofs.Unfolding
import CpuTrace.Proofs.UnitPublishing
import CpuTrace.Proofs.UnitReading
import CpuTrace.Proofs.UnitSeparation
import CpuTrace.Proofs.Variables
import CpuTrace.Proofs.WrittenMessages
import CpuTrace.Proofs.ReferenceGraph
import CpuTrace.Proofs.GreatestSupport
import CpuTrace.Proofs.Republishing
import CpuTrace.Proofs.LineReading
import CpuTrace.Proofs.SlotLines
import CpuTrace.Proofs.ContainmentChains
import CpuTrace.Proofs.EnumerationLeaves
import CpuTrace.Proofs.CutEntries
import CpuTrace.Proofs.SlotInverse
import CpuTrace.Proofs.Resumption
import CpuTrace.Proofs.RequiredFields
