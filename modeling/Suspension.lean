import Suspension.Assembly.Parser
import Suspension.Assembly.Printer
import Suspension.Assembly.Token
import Suspension.Builtins
import Suspension.ClassFile
import Suspension.ClassPath
import Suspension.Codec.Decode
import Suspension.Codec.Encode
import Suspension.Codec.Reader
import Suspension.Codec.Writer
import Suspension.CommandLine.Command
import Suspension.CommandLine.Flag
import Suspension.CommandLine.Session
import Suspension.Coroutine.Basic
import Suspension.Coroutine.Script
import Suspension.Descriptor
import Suspension.Fault
import Suspension.Files.Path
import Suspension.Files.Tree
import Suspension.Frame.Analysis
import Suspension.Frame.Transfer
import Suspension.Frame.Value
import Suspension.FrameStack
import Suspension.Hierarchy
import Suspension.Instruction
import Suspension.Instrument.Class
import Suspension.Instrument.Point
import Suspension.Instrument.Protection
import Suspension.Instrument.Transform
import Suspension.Log
import Suspension.Machine.Activation
import Suspension.Machine.Execution
import Suspension.Machine.Invocation
import Suspension.Machine.Loading
import Suspension.Machine.Native
import Suspension.Machine.State
import Suspension.Machine.Value
import Suspension.Main
import Suspension.Number.FloatFormat
import Suspension.Number.Ieee
import Suspension.Number.Literal
import Suspension.Number.Shortest
import Suspension.Opcode
import Suspension.Proofs.Assembly.Body
import Suspension.Proofs.Assembly.Counting
import Suspension.Proofs.Assembly.Forms
import Suspension.Proofs.Assembly.LabelNames
import Suspension.Proofs.Assembly.Lexemes
import Suspension.Proofs.Assembly.Numbering
import Suspension.Proofs.Assembly.Reading
import Suspension.Proofs.Assembly.Renaming
import Suspension.Proofs.Assembly.Resolution
import Suspension.Proofs.Assembly.RoundTrip
import Suspension.Proofs.Assembly.Scanning
import Suspension.Proofs.Assembly.Soundness
import Suspension.Proofs.Builtins
import Suspension.Proofs.Code.Closure
import Suspension.Proofs.Code.Deepest
import Suspension.Proofs.Code.Depth
import Suspension.Proofs.Code.Labels
import Suspension.Proofs.Code.Paths
import Suspension.Proofs.Code.Validity
import Suspension.Proofs.Codec.Checked
import Suspension.Proofs.Codec.Contents
import Suspension.Proofs.Codec.Exactness
import Suspension.Proofs.Codec.Number
import Suspension.Proofs.Codec.Reading
import Suspension.Proofs.Codec.RoundTrip
import Suspension.Proofs.Codec.Sticking
import Suspension.Proofs.Coroutine.Discipline
import Suspension.Proofs.Coroutine.Isolation
import Suspension.Proofs.Coroutine.Scripts
import Suspension.Proofs.Frame.Bounding
import Suspension.Proofs.Frame.Constructions
import Suspension.Proofs.Frame.Courses
import Suspension.Proofs.Frame.Growth
import Suspension.Proofs.Frame.Heights
import Suspension.Proofs.Frame.Invariants
import Suspension.Proofs.Frame.Lasting
import Suspension.Proofs.Frame.Meaning
import Suspension.Proofs.Frame.Moving
import Suspension.Proofs.Frame.Notes
import Suspension.Proofs.Frame.Pairs
import Suspension.Proofs.Frame.Settled
import Suspension.Proofs.Frame.Soundness
import Suspension.Proofs.Frame.Termination
import Suspension.Proofs.Frame.Thinning
import Suspension.Proofs.Frame.Transition
import Suspension.Proofs.Frame.Trimming
import Suspension.Proofs.FrameStack.Ledger
import Suspension.Proofs.FrameStack.Nesting
import Suspension.Proofs.FrameStack.Records
import Suspension.Proofs.Hierarchy.Agreement
import Suspension.Proofs.Hierarchy.Ancestors
import Suspension.Proofs.Hierarchy.Answers
import Suspension.Proofs.Hierarchy.Consulting
import Suspension.Proofs.Hierarchy.Lasting
import Suspension.Proofs.Hierarchy.Learning
import Suspension.Proofs.Instrument.Accounting
import Suspension.Proofs.Instrument.Agreement
import Suspension.Proofs.Instrument.Balance
import Suspension.Proofs.Instrument.Behaviour
import Suspension.Proofs.Instrument.Charting
import Suspension.Proofs.Instrument.Crossing
import Suspension.Proofs.Instrument.Cuts
import Suspension.Proofs.Instrument.Depth
import Suspension.Proofs.Instrument.Dispatch
import Suspension.Proofs.Instrument.Emission
import Suspension.Proofs.Instrument.Encoding
import Suspension.Proofs.Instrument.Explanation
import Suspension.Proofs.Instrument.Faithfulness
import Suspension.Proofs.Instrument.Flow
import Suspension.Proofs.Instrument.Guarding
import Suspension.Proofs.Instrument.Lasting
import Suspension.Proofs.Instrument.Layout
import Suspension.Proofs.Instrument.Marks
import Suspension.Proofs.Instrument.Omission
import Suspension.Proofs.Instrument.Passage
import Suspension.Proofs.Instrument.Points
import Suspension.Proofs.Instrument.Refusal
import Suspension.Proofs.Instrument.Reproduction
import Suspension.Proofs.Instrument.Resumption
import Suspension.Proofs.Instrument.RoundTrip
import Suspension.Proofs.Instrument.Runtime
import Suspension.Proofs.Instrument.Saving
import Suspension.Proofs.Instrument.Slots
import Suspension.Proofs.Instrument.Validity
import Suspension.Proofs.Instrument.Ways
import Suspension.Proofs.Machine.FreeNames
import Suspension.Proofs.Machine.Heap
import Suspension.Proofs.Machine.Initialisation
import Suspension.Proofs.Machine.Linking
import Suspension.Proofs.Machine.Lookup
import Suspension.Proofs.Machine.Names
import Suspension.Proofs.Machine.Outcome
import Suspension.Proofs.Machine.Run
import Suspension.Proofs.Machine.Safety
import Suspension.Proofs.Machine.Step
import Suspension.Proofs.Machine.Subtyping
import Suspension.Proofs.Machine.Visited
import Suspension.Proofs.Number.Decimal
import Suspension.Proofs.Number.FloatText
import Suspension.Proofs.Number.Numeral
import Suspension.Proofs.Number.Rounding
import Suspension.Proofs.Number.Shortest
import Suspension.Proofs.Observation
import Suspension.Proofs.Repetition
import Suspension.Proofs.Text.Descriptor
import Suspension.Proofs.Text.DescriptorGrammar
import Suspension.Proofs.Text.Quoted
import Suspension.Proofs.Text.Utf8
import Suspension.Repetition
import Suspension.StackDepth
import Suspension.StackEffect
import Suspension.Stepper
import Suspension.Text.Basic
import Suspension.Text.Blank
import Suspension.Text.CharRange
import Suspension.Text.Digit
import Suspension.Text.Letter
import Suspension.Text.LowerCase
import Suspension.Text.Printable
import Suspension.Text.Quoted
import Suspension.Text.Record
import Suspension.Text.Utf8
import Suspension.Validation
import Suspension.Workspace
