import HackAssembly.Text.Bytes
import HackAssembly.Text.Blank
import HackAssembly.Text.Utf8
import HackAssembly.Text.Printable
import HackAssembly.Text.Quoted
import HackAssembly.Text.Numeral
import HackAssembly.Machine.Mnemonic
import HackAssembly.Machine.Instruction
import HackAssembly.Failure
import HackAssembly.Source.Line
import HackAssembly.Source.Statement
import HackAssembly.Source.Cursor
import HackAssembly.SymbolTable
import HackAssembly.Assembly.Word
import HackAssembly.Assembly.Encoding
import HackAssembly.LogLine
import HackAssembly.Assembly.Notice
import HackAssembly.Assembly.Program
import HackAssembly.Assembly.Pass
import HackAssembly.Assembly.Labels
import HackAssembly.Assembly.Emission
import HackAssembly.Assembler
import HackAssembly.Source.Reading
import HackAssembly.Stream
import HackAssembly.Files.Fault
import HackAssembly.Files.Store
import HackAssembly.Files.Saving
import HackAssembly.SymbolDump
import HackAssembly.Build.Log
import HackAssembly.Build.File
import HackAssembly.Build.Report
import HackAssembly.Build.Pool
import HackAssembly.Build.Batch
import HackAssembly.CommandLine.Integer
import HackAssembly.CommandLine.Toolkit
import HackAssembly.CommandLine.Flag
import HackAssembly.CommandLine.Arguments
import HackAssembly.CommandLine.Command
import HackAssembly.Main
import HackAssembly.Proofs.Lists
import HackAssembly.Proofs.Numerals
import HackAssembly.Proofs.Naming
import HackAssembly.Proofs.Allocation
import HackAssembly.Proofs.Binary
import HackAssembly.Proofs.Outcome
import HackAssembly.Proofs.Resolution
import HackAssembly.Proofs.LabelAddresses
import HackAssembly.Proofs.VariableAddresses
import HackAssembly.Proofs.Failures
import HackAssembly.Proofs.Decoding
import HackAssembly.Proofs.Renaming
import HackAssembly.Proofs.Correspondence
import HackAssembly.Proofs.SymbolNames
import HackAssembly.Proofs.Layout
import HackAssembly.Proofs.Appending
import HackAssembly.Proofs.NumericTargets
import HackAssembly.Proofs.Requests
import HackAssembly.Proofs.Positions
import HackAssembly.Proofs.CompleteOutputs
import HackAssembly.Proofs.SourcePaths
import HackAssembly.Proofs.Pools
import HackAssembly.Proofs.Batches
import HackAssembly.Proofs.LabelReferences
import HackAssembly.Proofs.WrittenComputations
import HackAssembly.Proofs.AddressCapacity
import HackAssembly.Proofs.TableRange
import HackAssembly.Proofs.TablesAfterFailure
import HackAssembly.Proofs.Snapshots
import HackAssembly.Proofs.LogReading
import HackAssembly.Proofs.BindingTrace
import HackAssembly.Proofs.Decoration
import HackAssembly.Proofs.CommentCutting
import HackAssembly.Proofs.LineReading
import HackAssembly.Proofs.Listings
import HackAssembly.Proofs.SuccessfulBatches
import HackAssembly.Proofs.LogReading
import HackAssembly.SymbolDump
