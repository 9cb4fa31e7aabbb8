import AvrFlow.Text.Blank
import AvrFlow.Text.DecimalDigit
import AvrFlow.Text.Hexadecimal
import AvrFlow.Text.IntegerLiteral
import AvrFlow.Text.Lines
import AvrFlow.Text.Pieces
import AvrFlow.Text.Printable
import AvrFlow.Text.Quoted
import AvrFlow.Text.Utf8
import AvrFlow.Sorting
import AvrFlow.Result
import AvrFlow.Instruction
import AvrFlow.DecodeError
import AvrFlow.Operand
import AvrFlow.Decoder
import AvrFlow.Block
import AvrFlow.Graph
import AvrFlow.GraphError
import AvrFlow.Event
import AvrFlow.Outcome
import AvrFlow.Listing
import AvrFlow.AddressIndex
import AvrFlow.Walk
import AvrFlow.Successor
import AvrFlow.Exploration
import AvrFlow.Overlap
import AvrFlow.Recovery
import AvrFlow.Dot
import AvrFlow.Image
import AvrFlow.Value
import AvrFlow.FileTree
import AvrFlow.Input
import AvrFlow.Executable
import AvrFlow.CommandLine.Flag
import AvrFlow.CommandLine.Arguments
import AvrFlow.CommandLine.Usage
import AvrFlow.CommandLine.Run
import AvrFlow.Main
import AvrFlow.Proofs.StraightLine
import AvrFlow.Proofs.Machine
import AvrFlow.Proofs.Discovery
import AvrFlow.Proofs.WalkTails
import AvrFlow.Proofs.Soundness
import AvrFlow.Proofs.Overlap
import AvrFlow.Proofs.WellFormed
import AvrFlow.Proofs.Flow
import AvrFlow.Proofs.MachineFlow
import AvrFlow.Proofs.Leaders
import AvrFlow.Proofs.Completeness
import AvrFlow.Proofs.Session
import AvrFlow.Proofs.Termination
import AvrFlow.Proofs.Splits
import AvrFlow.Proofs.Repairable
import AvrFlow.Proofs.Admission
import AvrFlow.Proofs.Alike
import AvrFlow.Proofs.DiscoveryOrder
import AvrFlow.Proofs.FileTree
import AvrFlow.Proofs.Atomicity
import AvrFlow.Proofs.FormatHead
import AvrFlow.Proofs.Sources
import AvrFlow.Proofs.DotReader
import AvrFlow.Proofs.DotLines
import AvrFlow.Proofs.Drawing
import AvrFlow.Proofs.DrawingOrder
import AvrFlow.Proofs.EntryOrder
import AvrFlow.Proofs.Connected
import AvrFlow.Proofs.Descent
import AvrFlow.Proofs.Sweep
import AvrFlow.Proofs.Numerals
import AvrFlow.Proofs.HexLiterals
import AvrFlow.Proofs.OperandForms
import AvrFlow.Proofs.FirstEntries
import AvrFlow.Proofs.Naming
import AvrFlow.Proofs.Aliases
import AvrFlow.Proofs.Transcript
import AvrFlow.Proofs.AddressFields
