import HackToolchain.Jack.TokenDump
import HackToolchain.Proofs.Hack.Processor
import HackToolchain.Proofs.Hack.Execution
import HackToolchain.Proofs.Hack.Binding
import HackToolchain.Proofs.Vm.Layout
import HackToolchain.Proofs.Vm.Machine
import HackToolchain.Proofs.Vm.Idioms
import HackToolchain.Proofs.Vm.Simulation
import HackToolchain.Proofs.Token.Names
import HackToolchain.Proofs.Vm.Translation
import HackToolchain.Proofs.Vm.Calling
import HackToolchain.Proofs.Vm.Activation
import HackToolchain.Proofs.Jack.Emission
import HackToolchain.Proofs.Jack.Meaning
import HackToolchain.Proofs.Jack.Preservation
import HackToolchain.Proofs.Jack.Scope
import HackToolchain.Proofs.Jack.Generation
import HackToolchain.Proofs.Jack.Declarations
import HackToolchain.Proofs.Jack.Classes
import HackToolchain.Proofs.Token.Spelling
import HackToolchain.Proofs.Jack.Spelling
import HackToolchain.Proofs.Jack.Reading
import HackToolchain.Proofs.Jack.Grammar
import HackToolchain.Proofs.Hack.Reference
import HackToolchain.Proofs.Vm.Labels
import HackToolchain.Proofs.Vm.Depth
import HackToolchain.Proofs.Vm.Linking
import HackToolchain.Proofs.Jack.Structure
import HackToolchain.Proofs.Jack.Depth
import HackToolchain.Proofs.Jack.Linking
import HackToolchain.Proofs.Token.Scanning
import HackToolchain.Proofs.Token.Pieces
import HackToolchain.Proofs.Token.Writing
import HackToolchain.Proofs.Token.Lines
import HackToolchain.Proofs.Vm.Spelling
import HackToolchain.Proofs.Hack.Spelling
import HackToolchain.Proofs.Jack.Naming
import HackToolchain.Proofs.Build.Linking
import HackToolchain.Proofs.Vm.Symbols
import HackToolchain.Proofs.Token.Coverage
import HackToolchain.Proofs.Jack.Resolution
import HackToolchain.Proofs.Jack.Placing
import HackToolchain.Proofs.Jack.Operands
import HackToolchain.Proofs.Token.Complaints
import HackToolchain.Proofs.Jack.Complaints
import HackToolchain.Proofs.Token.Promptness
import HackToolchain.Proofs.Jack.Promptness
import HackToolchain.Proofs.Jack.PromptMembers
import HackToolchain.Proofs.Token.Anomalies
import HackToolchain.Proofs.Jack.Refusals
import HackToolchain.Proofs.Build.Outcome
import HackToolchain.Proofs.Vm.Reports
import HackToolchain.Proofs.Vm.Reassembly
import HackToolchain.Proofs.Vm.Segments
import HackToolchain.Proofs.Vm.Comparisons
import HackToolchain.Proofs.Vm.Scopes
import HackToolchain.Proofs.Vm.Annotation
import HackToolchain.Proofs.Token.Recovery
import HackToolchain.Proofs.Hack.Recovery
import HackToolchain.Proofs.Vm.Recovery
import HackToolchain.Proofs.Vm.Grammar
import HackToolchain.Proofs.Token.Truncation
import HackToolchain.Proofs.Jack.Truncation
import HackToolchain.Proofs.Hack.Variables
import HackToolchain.Proofs.Token.Literals
import HackToolchain.Proofs.Token.Rows
import HackToolchain.Proofs.Hack.Grammar
import HackToolchain.Proofs.Token.OneLine
import HackToolchain.Proofs.Token.LineEnds
import HackToolchain.Proofs.Token.Likeness
import HackToolchain.Proofs.Token.SourceLikeness
import HackToolchain.Proofs.Jack.Likeness
import HackToolchain.Proofs.Vm.Likeness
import HackToolchain.Proofs.Hack.Likeness
import HackToolchain.Proofs.Build.LineEnds
import HackToolchain.Proofs.Hack.Messages
import HackToolchain.Proofs.Build.Messages
import HackToolchain.Proofs.Token.Respelling
import HackToolchain.Proofs.Text.Escaped
import HackToolchain.Proofs.Jack.Dump
import HackToolchain.Proofs.Token.Progress
import HackToolchain.Proofs.Jack.Progress
import HackToolchain.Proofs.Build.Progress
import HackToolchain.Proofs.Token.Window
import HackToolchain.Proofs.Jack.Numbering
import HackToolchain.Proofs.Hack.Allocation
import HackToolchain.Proofs.Hack.Decoding
