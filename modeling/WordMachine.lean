import WordMachine.Main
import WordMachine.Proofs.Assembly.Commands
import WordMachine.Proofs.Assembly.Survey
import WordMachine.Proofs.Assembly.Emission
import WordMachine.Proofs.Assembly.Placement
import WordMachine.Proofs.Assembly.Segments
import WordMachine.Proofs.Assembly.Symbols
import WordMachine.Proofs.Instruction.NormalForm
import WordMachine.Proofs.Instruction.RoundTrip
import WordMachine.Proofs.Emulator.Faults
import WordMachine.Proofs.Instruction.Reencoding
import WordMachine.Proofs.Emulator.Lifecycle
import WordMachine.Proofs.Emulator.Termination
import WordMachine.Proofs.Emulator.Loading
import WordMachine.Proofs.Machine.Meaning
import WordMachine.Proofs.Emulator.Causes
import WordMachine.Proofs.Source.Hygiene
import WordMachine.Proofs.Instruction.Disassembly
import WordMachine.Proofs.Emulator.Cuts
import WordMachine.Proofs.CommandLine.Tracing
import WordMachine.Proofs.Source.Labels
import WordMachine.Proofs.Machine.Bitwise
import WordMachine.Proofs.Machine.Footprint
import WordMachine.Proofs.Emulator.Enlargement
import WordMachine.Proofs.Assembly.Renumbering
import WordMachine.Proofs.Machine.Comparison
import WordMachine.Proofs.Machine.Stack
import WordMachine.Proofs.Source.Calls
import WordMachine.Proofs.Operand.Decimals
import WordMachine.Proofs.Source.Printing
import WordMachine.Proofs.Machine.Shifts
import WordMachine.Proofs.Machine.Transfers
import WordMachine.Proofs.Console.Integers
import WordMachine.Proofs.Machine.Integers
import WordMachine.Proofs.Assembly.Findings
import WordMachine.Proofs.Assembly.Reach
import WordMachine.Proofs.Memory.ByteMap
import WordMachine.Proofs.Memory.Dump
import WordMachine.Proofs.CommandLine.Sizes
import WordMachine.Proofs.CommandLine.Grouping
