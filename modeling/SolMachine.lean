import SolMachine.Assembly.Diagnostic
import SolMachine.Assembly.Field
import SolMachine.Assembly.LineReader
import SolMachine.Assembly.Program
import SolMachine.Assembly.Resolve
import SolMachine.Assembly.Statement
import SolMachine.Assembly.SymbolTable
import SolMachine.Assembly.Token
import SolMachine.Decimal
import SolMachine.Isa.Encoding
import SolMachine.Isa.Instruction
import SolMachine.Isa.Offset
import SolMachine.Isa.Opcode
import SolMachine.Isa.Register
import SolMachine.Limits
import SolMachine.Machine.Fault
import SolMachine.Machine.Memory
import SolMachine.Machine.Run
import SolMachine.Machine.Seed
import SolMachine.Machine.Stack
import SolMachine.Machine.State
import SolMachine.Machine.Step
import SolMachine.Machine.Trace
import SolMachine.Main
import SolMachine.Proofs.Encoding
import SolMachine.Proofs.Labels
import SolMachine.Proofs.Offset
import SolMachine.Proofs.Survey
import SolMachine.Text.Blank
import SolMachine.Text.Line
import SolMachine.Text.SourceMap
import SolMachine.Text.Span
import SolMachine.Text.WordChar
import SolMachine.Tool.Arguments
import SolMachine.Tool.Host
import SolMachine.Tool.Path
import SolMachine.Tool.Run
import SolMachine.Tool.World
import SolMachine.Word
import SolMachine.WordFile
import SolMachine.Proofs.Resolution
import SolMachine.Proofs.Lines
import SolMachine.Proofs.Validity
import SolMachine.Proofs.Passes
import SolMachine.Proofs.Acceptance
import SolMachine.Proofs.Reports
import SolMachine.Proofs.SourceRun
import SolMachine.Proofs.InstructionTable
import SolMachine.Proofs.Endings
import SolMachine.Proofs.Evolution
import SolMachine.Proofs.Walks
import SolMachine.Proofs.UsedBits
import SolMachine.Proofs.History
import SolMachine.Proofs.Failure
import SolMachine.Proofs.Decimals
import SolMachine.Proofs.WrittenFields
import SolMachine.Proofs.FieldTokens
import SolMachine.Proofs.OperandGrammar
import SolMachine.Proofs.LineGrammar
import SolMachine.Proofs.Printing
import SolMachine.Proofs.WordFiles
import SolMachine.Proofs.TraceText
import SolMachine.Proofs.Tracing
import SolMachine.Proofs.Effects
import SolMachine.Proofs.Sequential
import SolMachine.Proofs.Moving
import SolMachine.Proofs.Shifting
import SolMachine.Proofs.Joining
import SolMachine.Proofs.Layout
import SolMachine.Proofs.TraceReading
import SolMachine.Proofs.CommandLines
import SolMachine.Proofs.FileTrees
import SolMachine.Proofs.Outputs
import SolMachine.Proofs.AddressSpace
import SolMachine.Proofs.LimitedRuns
import SolMachine.Proofs.ForwardPrograms
import SolMachine.Proofs.LineSearch
import SolMachine.Proofs.SymbolTables
import SolMachine.Proofs.FieldReading
import SolMachine.Proofs.LineByLine
import SolMachine.Proofs.ReportedPlaces
import SolMachine.Proofs.WordFileFormat
import SolMachine.Proofs.LinePositions
import SolMachine.Proofs.Displacements
import SolMachine.Proofs.ReportedCounts
import SolMachine.Proofs.TwosComplement
