import Cplastane.X86.LittleEndian
import Cplastane.X86.Decode
import Cplastane.X86.Encoding
import Cplastane.Exceptions
import Cplastane.Assembly.Mnemo
import Cplastane.Assembly.Encode
import Cplastane.Assembly.Assemble
import Cplastane.Assembly.Meaning
import Cplastane.Assembly.Encoding
import Cplastane.Proofs.Bytes
import Cplastane.Proofs.Operands
import Cplastane.Proofs.MemoryForm
import Cplastane.Proofs.EncoderTable
import Cplastane.Proofs.Program
import Cplastane.Proofs.Reading
import Cplastane.Proofs.MemoryFidelity
import Cplastane.Proofs.Decoding
import Cplastane.Proofs.Supported
import Cplastane.Proofs.Immediates
import Cplastane.Proofs.ImmediateRange
import Cplastane.Proofs.AddImmediate
import Cplastane.Proofs.AddValue
import Cplastane.Parsec
import Cplastane.Assembly.Parse
import Cplastane.Text.Scan
import Cplastane.Assembly.Reader
import Cplastane.Assembly.Grammar
import Cplastane.Proofs.Cursor
import Cplastane.Proofs.GrammarSound
import Cplastane.Proofs.ParserReads
import Cplastane.Proofs.GrammarComplete
import Cplastane.Proofs.ParserRuns
import Cplastane.Proofs.Acceptance
import Cplastane.Proofs.ErrorPlace
import Cplastane.Proofs.CursorSafety
import Cplastane.Proofs.Composition
import Cplastane.Proofs.Escapes
import Cplastane.Proofs.InternalErrors
import Cplastane.Assembly.Print
import Cplastane.Proofs.Arity
import Cplastane.Proofs.AddressWidth
import Cplastane.Text.Numeral
import Cplastane.Proofs.Literals
import Cplastane.Proofs.Overflow
import Cplastane.Pages
import Cplastane.Jit
import Cplastane.Proofs.Trap
import Cplastane.X86.Shortest
import Cplastane.Proofs.Shortest
import Cplastane.Proofs.Displacement
import Cplastane.Proofs.Printing
import Cplastane.Loop
import Cplastane.Proofs.Termination
import Cplastane.Simulation
import Cplastane.Straight
import Cplastane.X86.Machine
import Cplastane.X86.Execution
import Cplastane.X86.Stack
import Cplastane.Assembly.Semantics
import Cplastane.Proofs.Realization
import Cplastane.Proofs.Preservation
import Cplastane.Eval
import Cplastane.Proofs.JitRuns
import Cplastane.Proofs.Evaluation
import Cplastane.Proofs.Sums
import Cplastane.Proofs.Footprint
import Cplastane.Appending
import Cplastane.Proofs.FirstError
import Cplastane.Proofs.Refusals
import Cplastane.Proofs.SameCode
import Cplastane.Proofs.Table
import Cplastane.Proofs.ErrorTexts
import Cplastane.Proofs.EvalThrows
import Cplastane.Proofs.Unambiguous
import Cplastane.Assembly.Log
import Cplastane.Proofs.Logging
import Cplastane.Proofs.Balance
import Cplastane.Assembly.Unparse
import Cplastane.Proofs.Unparsing
