import HackVM.Asm.Computation
import HackVM.Asm.Line
import HackVM.Codegen.Block
import HackVM.Codegen.Emitter
import HackVM.Codegen.Program
import HackVM.CommandLine.Help
import HackVM.CommandLine.Options
import HackVM.CommandLine.Program
import HackVM.Files.Path
import HackVM.Files.SystemError
import HackVM.Files.Tree
import HackVM.Job.Delivery
import HackVM.Job.Error
import HackVM.Job.Log
import HackVM.Job.Plan
import HackVM.Job.Run
import HackVM.Machine.Assemble
import HackVM.Machine.Cpu
import HackVM.Machine.Memory
import HackVM.Machine.Statement
import HackVM.Machine.SymbolTable
import HackVM.Main
import HackVM.Proofs.Asm.Names
import HackVM.Proofs.Asm.Reading
import HackVM.Proofs.Codegen.Annotation
import HackVM.Proofs.Codegen.CallReturn
import HackVM.Proofs.Codegen.CallStack
import HackVM.Proofs.Codegen.Capture
import HackVM.Proofs.Codegen.Comparison
import HackVM.Proofs.Codegen.Control
import HackVM.Proofs.Codegen.Correctness
import HackVM.Proofs.Codegen.Definitions
import HackVM.Proofs.Codegen.Effect
import HackVM.Proofs.Codegen.Faultless
import HackVM.Proofs.Codegen.Immediate
import HackVM.Proofs.Codegen.Layout
import HackVM.Proofs.Codegen.Namespaces
import HackVM.Proofs.Codegen.Numbering
import HackVM.Proofs.Codegen.Renumbering
import HackVM.Proofs.Codegen.Session
import HackVM.Proofs.Codegen.Simulation
import HackVM.Proofs.CommandLine.Repetition
import HackVM.Proofs.CommandLine.Verbosity
import HackVM.Proofs.Files.Canonical
import HackVM.Proofs.Files.Path
import HackVM.Proofs.Files.Tree
import HackVM.Proofs.Files.Writing
import HackVM.Proofs.Job.Delivery
import HackVM.Proofs.Job.Directory
import HackVM.Proofs.Job.Output
import HackVM.Proofs.Job.Plan
import HackVM.Proofs.Job.Record
import HackVM.Proofs.Job.Source
import HackVM.Proofs.Machine.Addresses
import HackVM.Proofs.Machine.CallChain
import HackVM.Proofs.Machine.Code
import HackVM.Proofs.Machine.Frame
import HackVM.Proofs.Machine.Passes
import HackVM.Proofs.Machine.Path
import HackVM.Proofs.Machine.Stack
import HackVM.Proofs.Machine.Symbols
import HackVM.Proofs.Text.Bare
import HackVM.Proofs.Text.Encoding
import HackVM.Proofs.Text.Pieces
import HackVM.Proofs.Vm.Lines
import HackVM.Proofs.Vm.Meaning
import HackVM.Proofs.Vm.Rendering
import HackVM.Proofs.Vm.Sentence
import HackVM.Proofs.Vm.Stream
import HackVM.Text.Blank
import HackVM.Text.Bytes
import HackVM.Text.ControlSequence
import HackVM.Text.Decimal
import HackVM.Text.Pieces
import HackVM.Text.Quoted
import HackVM.Text.Unprintable
import HackVM.Vm.Command
import HackVM.Vm.Cursor
import HackVM.Vm.Grammar
import HackVM.Vm.Source
