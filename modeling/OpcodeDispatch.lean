import OpcodeDispatch.Text.Blank
import OpcodeDispatch.Text.Case
import OpcodeDispatch.Text.Column
import OpcodeDispatch.Text.Numeral
import OpcodeDispatch.Text.Unprintable
import OpcodeDispatch.Text.Quoted
import OpcodeDispatch.Opcode
import OpcodeDispatch.OpcodeSet
import OpcodeDispatch.CycleCost
import OpcodeDispatch.Register
import OpcodeDispatch.AddressingMode
import OpcodeDispatch.Family
import OpcodeDispatch.FlagEffects
import OpcodeDispatch.FileError
import OpcodeDispatch.Fault
import OpcodeDispatch.Table.Record
import OpcodeDispatch.Json
import OpcodeDispatch.Json.Reader
import OpcodeDispatch.Json.Printer
import OpcodeDispatch.Json.Deserializer
import OpcodeDispatch.Settings.Basic
import OpcodeDispatch.Settings.Json
import OpcodeDispatch.Operation.Basic
import OpcodeDispatch.Operation.OfRecord
import OpcodeDispatch.Operation.Checked
import OpcodeDispatch.Operation.Code
import OpcodeDispatch.Arm.Basic
import OpcodeDispatch.Arm.OfEntry
import OpcodeDispatch.Table.Line
import OpcodeDispatch.Table.Cursor
import OpcodeDispatch.Table.Reader
import OpcodeDispatch.Arm.Writer
import OpcodeDispatch.Run
import OpcodeDispatch.Listing.Basic
import OpcodeDispatch.Listing.Tally
import OpcodeDispatch.Listing.Json
import OpcodeDispatch.Listing.Text
import OpcodeDispatch.Checked
import OpcodeDispatch.Command.World
import OpcodeDispatch.Command.Arguments
import OpcodeDispatch.Command.Grammar
import OpcodeDispatch.Command.Directory
import OpcodeDispatch.Command.Compiler
import OpcodeDispatch.Command.Inspector
import OpcodeDispatch.Command.Tool
import OpcodeDispatch.Main
import OpcodeDispatch.Proofs.Decoding
import OpcodeDispatch.Proofs.Reading
import OpcodeDispatch.Proofs.Written
import OpcodeDispatch.Proofs.OneLine
import OpcodeDispatch.Proofs.Strictness
import OpcodeDispatch.Proofs.Exactness
import OpcodeDispatch.Proofs.LineBytes
import OpcodeDispatch.Proofs.Sheet
import OpcodeDispatch.Proofs.RoundTrip
import OpcodeDispatch.Proofs.Slip
import OpcodeDispatch.Proofs.Agreement
import OpcodeDispatch.Proofs.Calls
import OpcodeDispatch.Proofs.Endings
import OpcodeDispatch.Proofs.Spelling
import OpcodeDispatch.Proofs.OperandLanguage
import OpcodeDispatch.Proofs.Streaming
import OpcodeDispatch.Proofs.Influence
import OpcodeDispatch.Proofs.ListingText
import OpcodeDispatch.Proofs.CommandLines
import OpcodeDispatch.Proofs.Verdicts
import OpcodeDispatch.Proofs.Padding
import OpcodeDispatch.Proofs.Layout
import OpcodeDispatch.Proofs.Relayout
import OpcodeDispatch.Proofs.Adjustments
import OpcodeDispatch.Proofs.Primitives
import OpcodeDispatch.Proofs.TrailingBlanks
import OpcodeDispatch.Proofs.Routes
import OpcodeDispatch.Proofs.CycleTokens
import OpcodeDispatch.Proofs.Costs
import OpcodeDispatch.Proofs.Restarts
import OpcodeDispatch.Proofs.Positions
import OpcodeDispatch.Proofs.Loads
import OpcodeDispatch.Proofs.OperandTexts
import OpcodeDispatch.Proofs.Diagnostics
import OpcodeDispatch.Proofs.Admission
import OpcodeDispatch.Proofs.Tallies
import OpcodeDispatch.Proofs.FlagColumns
import OpcodeDispatch.Proofs.JsonText
import OpcodeDispatch.Proofs.Deserializing
import OpcodeDispatch.Proofs.SettingsText
import OpcodeDispatch.Proofs.Members
import OpcodeDispatch.Proofs.Traps
