import Substrate.Alignment
import Substrate.Arguments
import Substrate.Block
import Substrate.Control
import Substrate.Decimal.Binary
import Substrate.Decimal.Double
import Substrate.Decimal.Literal
import Substrate.Decimal.Shortest
import Substrate.Error
import Substrate.Fault
import Substrate.Header
import Substrate.Heap
import Substrate.Kind
import Substrate.Layout
import Substrate.Lock.Condvar
import Substrate.Lock.Guard
import Substrate.Lock.Parking
import Substrate.Lock.Word
import Substrate.Machine.Basic
import Substrate.Machine.Collect
import Substrate.Machine.Construct
import Substrate.Machine.Memory
import Substrate.Machine.Nesting
import Substrate.Machine.Roots
import Substrate.Machine.Safepoint
import Substrate.Machine.Scopes
import Substrate.Machine.Threads
import Substrate.Main
import Substrate.Marking
import Substrate.Object
import Substrate.Options
import Substrate.OsError
import Substrate.Pages
import Substrate.Region
import Substrate.Roots
import Substrate.Script.Command
import Substrate.Script.Datum
import Substrate.Script.Eval
import Substrate.Script.Reader
import Substrate.Script.Session
import Substrate.Script.Shown
import Substrate.Script.Syntax
import Substrate.Script.Workspace
import Substrate.Session.Cells
import Substrate.Session.Heaps
import Substrate.Session.Locks
import Substrate.Session.Mutators
import Substrate.Session.Objects
import Substrate.Size
import Substrate.Space
import Substrate.Stress
import Substrate.SymbolTable
import Substrate.Text.Blank
import Substrate.Text.Lines
import Substrate.Text.Masked
import Substrate.Text.Printable
import Substrate.Text.Quoted
import Substrate.Text.Utf8
import Substrate.Value
import Substrate.Proofs.Rounding
import Substrate.Proofs.Block.FreeList
import Substrate.Proofs.Block.Sweep
import Substrate.Proofs.Space.Valid
import Substrate.Proofs.Space.Change
import Substrate.Proofs.Space.Allocation
import Substrate.Proofs.Space.Sweep
import Substrate.Proofs.Space.Runs
import Substrate.Proofs.Space.Holdings
import Substrate.Proofs.Space.Footprint
import Substrate.Proofs.Space.Reclaim
import Substrate.Proofs.Collection.Graph
import Substrate.Proofs.Collection.Traversal
import Substrate.Proofs.Collection.Visit
import Substrate.Proofs.Collection.Marking
import Substrate.Proofs.Collection.Exactness
import Substrate.Proofs.Collection.Work
import Substrate.Proofs.Collection.Lifetime
import Substrate.Proofs.Collection.Steps
import Substrate.Proofs.Collection.Custody
import Substrate.Proofs.Collection.Finalizers
import Substrate.Proofs.Collection.Interrupted
import Substrate.Proofs.Collection.Accounting
import Substrate.Proofs.Control.Program
import Substrate.Proofs.Panics
import Substrate.Proofs.Control.Allocation
import Substrate.Proofs.Control.Operations
import Substrate.Proofs.Control.Refinement
import Substrate.Proofs.Control.Layers
import Substrate.Proofs.Control.Containment
import Substrate.Proofs.Machine.Exclusion
import Substrate.Proofs.Machine.Stalled
import Substrate.Proofs.Machine.Roots
import Substrate.Proofs.Control.Acts
import Substrate.Proofs.Control.References
import Substrate.Proofs.Control.Symbols
import Substrate.Proofs.Control.Retention
import Substrate.Proofs.Control.Dynamic
import Substrate.Proofs.Control.Agreement
import Substrate.Proofs.Control.DeepBinding
import Substrate.Proofs.Lock.Guard
import Substrate.Proofs.Text.Utf8
import Substrate.Proofs.Collection.Extents
import Substrate.Proofs.Construct.Form
import Substrate.Proofs.Construct.Filling
import Substrate.Proofs.Construct.Contents
import Substrate.Proofs.Construct.Native
import Substrate.Proofs.Construct.Passage
import Substrate.Proofs.Construct.Interludes
import Substrate.Proofs.Construct.Survival
import Substrate.Proofs.Construct.Fields
import Substrate.Proofs.Control.Accounts
import Substrate.Proofs.Control.Swallowed
import Substrate.Proofs.Lock.Parking
import Substrate.Proofs.Lock.Condvar
import Substrate.Proofs.Exclusions
import Substrate.Proofs.Machine.Unlocked
import Substrate.Proofs.Scanning
import Substrate.Proofs.Space.Access
import Substrate.Proofs.Space.Cursor
import Substrate.Proofs.Space.Rewound
import Substrate.Proofs.Space.Refusal
import Substrate.Proofs.Collection.Refusal
import Substrate.Proofs.Space.Shortage
import Substrate.Proofs.Construct.Exhaustion
import Substrate.Proofs.Control.Shadowing
import Substrate.Proofs.Collection.Sparing
import Substrate.Proofs.Control.Cleanups
import Substrate.Proofs.Construct.Stages
import Substrate.Proofs.Construct.Readers
import Substrate.Proofs.Space.Readers
import Substrate.Proofs.Construct.Slots
import Substrate.Proofs.Text.Blank
import Substrate.Proofs.Decimal.Literal
import Substrate.Proofs.Text.Slices
import Substrate.Proofs.Size
import Substrate.Proofs.Options
import Substrate.Proofs.Wrapping
import Substrate.Proofs.Pages
import Substrate.Proofs.Construct.Settling
import Substrate.Proofs.Construct.Sizes
import Substrate.Proofs.Immediates
import Substrate.Proofs.Space.Lengths
import Substrate.Proofs.Construct.Faults
import Substrate.Proofs.Machine.Recording
import Substrate.Proofs.Machine.Retries
import Substrate.Proofs.Space.Ownership
import Substrate.Proofs.Construct.Honesty
import Substrate.Proofs.Control.Naming
import Substrate.Proofs.Control.Tags
