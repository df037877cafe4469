import Sm83.Dump.RegisterFile
import Sm83.Listing
import Sm83.Processor
import Sm83.Ram
import Sm83.Proofs.Listing.Execution
import Sm83.Proofs.Opcode.Completion
import Sm83.Proofs.Opcode.Protocol
import Sm83.Proofs.Processor.Duration
import Sm83.Proofs.Processor.Enabling
import Sm83.Proofs.Processor.Traffic
import Sm83.Proofs.Stack.Refinement
import Sm83.Proofs.Bus.Locality
import Sm83.Proofs.Processor.History
import Sm83.Proofs.Processor.Locality
import Sm83.Proofs.Processor.Service
import Sm83.Proofs.Processor.ByHand
import Sm83.Proofs.Processor.Timetable
import Sm83.Proofs.Processor.Refusal
import Sm83.Proofs.Processor.Lockup
import Sm83.Proofs.Processor.Outcome
import Sm83.Proofs.Processor.Branches
import Sm83.Proofs.Processor.Loads
import Sm83.Proofs.Arithmetic.Bytes
import Sm83.Proofs.Arithmetic.Shifts
import Sm83.Proofs.Schedule.Places
import Sm83.Proofs.Processor.ByteArithmetic
import Sm83.Proofs.Processor.BitOperations
import Sm83.Proofs.Arithmetic.Words
import Sm83.Proofs.Processor.WordArithmetic
import Sm83.Proofs.Arithmetic.Chains
import Sm83.Proofs.Arithmetic.ShiftChains
import Sm83.Proofs.Arithmetic.Decimal
import Sm83.Proofs.Listing.Sweep
import Sm83.Proofs.Opcode.Interim
import Sm83.Proofs.Listing.Assembler
import Sm83.Proofs.Processor.Halting
import Sm83.Proofs.Processor.Trace
import Sm83.Proofs.Dump.RegisterFile
import Sm83.Proofs.Ram.LastWritten
import Sm83.Proofs.RegisterFile.Cells
