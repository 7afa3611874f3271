import Mos6502.Bindings
import Mos6502.Cli.Arguments
import Mos6502.Cli.Files
import Mos6502.Cli.Json
import Mos6502.Cli.Path
import Mos6502.Cli.Report
import Mos6502.Cli.Run
import Mos6502.Diagnostic
import Mos6502.Graph
import Mos6502.IR.Basic
import Mos6502.IR.Build
import Mos6502.IR.Printer
import Mos6502.IR.Prune
import Mos6502.IR.Verify
import Mos6502.Isa.AddressingMode
import Mos6502.Isa.Opcode
import Mos6502.Isa.Select
import Mos6502.Layout
import Mos6502.Lowering.Compile
import Mos6502.Lowering.DataSection
import Mos6502.Lowering.EntryPoint
import Mos6502.Lowering.Rule
import Mos6502.Lowering.Segment
import Mos6502.Main
import Mos6502.Native.Basic
import Mos6502.Native.Emit
import Mos6502.Native.Printer
import Mos6502.Proofs.Cpu
import Mos6502.Proofs.Execution
import Mos6502.Proofs.FreshName
import Mos6502.Proofs.Layout
import Mos6502.Proofs.Pruning
import Mos6502.Proofs.Reachability
import Mos6502.Proofs.Segments
import Mos6502.Proofs.SlotForm
import Mos6502.Proofs.WellFormed
import Mos6502.Source.Line
import Mos6502.Source.Parse
import Mos6502.Source.Scanner
import Mos6502.Source.Statement
import Mos6502.Text.Bytes
import Mos6502.Text.Columns
import Mos6502.Text.Emoji
import Mos6502.Text.FreshName
import Mos6502.Text.Identifier
import Mos6502.Text.Ligature
import Mos6502.Text.Numeral
import Mos6502.Text.Position
import Mos6502.Text.Ranges
import Mos6502.Text.Span
import Mos6502.Text.Width
import Mos6502.Proofs.LoweredCode
import Mos6502.Proofs.LoweredMeaning
import Mos6502.Proofs.CodeBlocks
import Mos6502.Proofs.MainFunction
import Mos6502.Proofs.Compilation
import Mos6502.Proofs.ControlFlow
import Mos6502.Proofs.ProgramMeaning
import Mos6502.Proofs.Emission
import Mos6502.Proofs.ProgramEmission
import Mos6502.Proofs.EmissionSteps
import Mos6502.Proofs.EmissionSafety
import Mos6502.Proofs.Accounts
import Mos6502.Proofs.BlockRuns
import Mos6502.Proofs.NativeExecution
import Mos6502.Proofs.EmittedFunctions
import Mos6502.Proofs.NativeMeaning
import Mos6502.Proofs.LineLocality
import Mos6502.Proofs.ModuleText
import Mos6502.Proofs.Scanning
import Mos6502.Proofs.WrittenForm
import Mos6502.Proofs.Reading
import Mos6502.Proofs.LegibleNames
import Mos6502.Proofs.LegibleCode
import Mos6502.Proofs.LegiblePrograms
import Mos6502.Proofs.LiveBlocks
import Mos6502.Proofs.PrunedRuns
import Mos6502.Proofs.PrunedModules
import Mos6502.Proofs.OwnedData
import Mos6502.Proofs.DataAddresses
import Mos6502.Proofs.OptionIndependence
import Mos6502.Proofs.LetterCase
import Mos6502.Proofs.Placement
import Mos6502.Proofs.TakenText
import Mos6502.Proofs.FaithfulSpans
import Mos6502.Proofs.Positions
import Mos6502.Proofs.Reports
import Mos6502.Proofs.PrunedBlocks
import Mos6502.Proofs.VerifierRules
import Mos6502.Proofs.LayoutTables
import Mos6502.Proofs.Selection
import Mos6502.Proofs.Decoding
import Mos6502.Proofs.EarlyUses
import Mos6502.Proofs.LineTails
import Mos6502.Proofs.DirectiveWords
import Mos6502.Proofs.Construction
import Mos6502.Proofs.LocalNames
import Mos6502.Proofs.SingleAssignment
import Mos6502.Proofs.WrittenFiles
import Mos6502.Proofs.BuildOutput
import Mos6502.Proofs.BytePositions
import Mos6502.Proofs.Paths
import Mos6502.Proofs.SparedInput
