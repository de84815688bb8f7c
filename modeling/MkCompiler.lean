import MkCompiler.Assembly
import MkCompiler.Build
import MkCompiler.Code
import MkCompiler.Command
import MkCompiler.CommandLine
import MkCompiler.Compilation.Basic
import MkCompiler.Compilation.Definition
import MkCompiler.Compilation.Expression
import MkCompiler.Compilation.Handle
import MkCompiler.Compilation.Recording
import MkCompiler.Compilation.Statement
import MkCompiler.DataType
import MkCompiler.Emitter.Basic
import MkCompiler.Emitter.Control
import MkCompiler.Emitter.Function
import MkCompiler.Emitter.Transfer
import MkCompiler.Emitter.Value
import MkCompiler.Emitter.Variable
import MkCompiler.Failure
import MkCompiler.FileStore
import MkCompiler.Ir.Line
import MkCompiler.Ir.Name
import MkCompiler.Literal
import MkCompiler.Main
import MkCompiler.Markup
import MkCompiler.Numeral.Binary64
import MkCompiler.Numeral.Integer
import MkCompiler.Numeral.Real
import MkCompiler.Numeral.Shortest
import MkCompiler.Operand
import MkCompiler.Operator
import MkCompiler.Path
import MkCompiler.Report
import MkCompiler.RuntimeConfig
import MkCompiler.RuntimeSymbols
import MkCompiler.Scope
import MkCompiler.Section
import MkCompiler.SymbolTable
import MkCompiler.Text.Letter
import MkCompiler.Text.Printable
import MkCompiler.Text.Quoted
import MkCompiler.Text.Search
import MkCompiler.Text.Template
import MkCompiler.Text.Utf8
import MkCompiler.Text.Whitespace
import MkCompiler.Toml.Document
import MkCompiler.Toml.Key
import MkCompiler.Toml.Moment
import MkCompiler.Toml.Node
import MkCompiler.Toml.Token
import MkCompiler.Trace
import MkCompiler.Violation
import MkCompiler.Proofs.Action
import MkCompiler.Proofs.Emission
import MkCompiler.Proofs.Layout
import MkCompiler.Proofs.Steps
import MkCompiler.Proofs.Notifications
import MkCompiler.Proofs.Recording
import MkCompiler.Proofs.Streams
import MkCompiler.Proofs.Compiled
import MkCompiler.Proofs.Numbering
import MkCompiler.Proofs.Blocks
import MkCompiler.Proofs.Labels
import MkCompiler.Proofs.StructuredFlow
import MkCompiler.Proofs.Handling
import MkCompiler.Proofs.Lowering
import MkCompiler.Proofs.Numerals
import MkCompiler.Proofs.Machine
import MkCompiler.Proofs.StraightLine
import MkCompiler.Proofs.Translation
import MkCompiler.Proofs.Endings
import MkCompiler.Proofs.Anchors
import MkCompiler.Proofs.Steadiness
import MkCompiler.Proofs.Tables
import MkCompiler.Proofs.Safety
import MkCompiler.Proofs.Persistence
import MkCompiler.Proofs.Usage
import MkCompiler.Proofs.Typing
import MkCompiler.Proofs.Growth
import MkCompiler.Proofs.Spelling
import MkCompiler.Proofs.Bindings
import MkCompiler.Proofs.Linkage
import MkCompiler.Proofs.Linking
import MkCompiler.Proofs.LinkedConstructs
import MkCompiler.Proofs.LinkedDefinitions
import MkCompiler.Proofs.LinkedRuns
import MkCompiler.Proofs.Symbols
import MkCompiler.Proofs.ConfiguredSymbols
import MkCompiler.Proofs.Locals
import MkCompiler.Proofs.Cells
import MkCompiler.Proofs.ControlScopes
import MkCompiler.Proofs.Coherence
import MkCompiler.Proofs.Frames
import MkCompiler.Proofs.ClassBodies
import MkCompiler.Proofs.Recorder
import MkCompiler.Proofs.Settled
import MkCompiler.Proofs.Outlines
import MkCompiler.Proofs.Instantiation
import MkCompiler.Proofs.ControlBalance
import MkCompiler.Proofs.ProgramStructure
import MkCompiler.Proofs.InstanceFrames
import MkCompiler.Proofs.Mirrors
import MkCompiler.Proofs.Counterparts
import MkCompiler.Proofs.MirroredOutput
import MkCompiler.Proofs.MirroredEmitter
import MkCompiler.Proofs.MirroredTables
import MkCompiler.Proofs.MirroredConstructs
import MkCompiler.Proofs.MirroredRuns
import MkCompiler.Proofs.Parametricity
import MkCompiler.Proofs.Histories
import MkCompiler.Proofs.Agreement
import MkCompiler.Proofs.Meaning
import MkCompiler.Proofs.OperandTypes
import MkCompiler.Proofs.Edits
import MkCompiler.Proofs.Registry
import MkCompiler.Proofs.Expressions
import MkCompiler.Proofs.ExpressionWalks
import MkCompiler.Proofs.Transcripts
import MkCompiler.Proofs.BodyOperations
import MkCompiler.Proofs.StateTraces
import MkCompiler.Proofs.Separation
import MkCompiler.Proofs.Shadowing
import MkCompiler.Proofs.TypeHistories
import MkCompiler.Proofs.StorageLines
import MkCompiler.Proofs.VariableEvents
import MkCompiler.Proofs.VersionPolicy
import MkCompiler.Proofs.Deliveries
import MkCompiler.Proofs.Primitives
import MkCompiler.Proofs.SlotOrder
import MkCompiler.Proofs.OperationSequences
import MkCompiler.Proofs.Spellings
import MkCompiler.Proofs.Refusals
import MkCompiler.Proofs.Oversights
import MkCompiler.Proofs.Arrays
