import Cadastre.BoundFunction
import Cadastre.BoundFunction.Batch
import Cadastre.BoundFunction.Bind
import Cadastre.BoundFunction.Stored
import Cadastre.Callable
import Cadastre.Catalog
import Cadastre.Catalog.Alter
import Cadastre.Catalog.Column
import Cadastre.Catalog.Create
import Cadastre.Catalog.Function
import Cadastre.Catalog.Mutation
import Cadastre.Catalog.Operation
import Cadastre.Catalog.Request
import Cadastre.Catalog.Rows
import Cadastre.ColumnType
import Cadastre.ColumnType.Concrete
import Cadastre.ColumnType.Record
import Cadastre.Config
import Cadastre.Conversion
import Cadastre.Conversion.Record
import Cadastre.Descriptor
import Cadastre.Descriptor.Record
import Cadastre.Diagnostic
import Cadastre.Error
import Cadastre.Error.Catalog
import Cadastre.Error.Function
import Cadastre.Error.Type
import Cadastre.Event
import Cadastre.Expr
import Cadastre.Expr.Record
import Cadastre.Identifier
import Cadastre.Image
import Cadastre.Json
import Cadastre.Json.Decode
import Cadastre.Json.Encode
import Cadastre.Json.Reader
import Cadastre.Json.Writer
import Cadastre.Key
import Cadastre.Key.Record
import Cadastre.LogFilter
import Cadastre.LogSettings
import Cadastre.Metadata
import Cadastre.Metadata.ColumnMap
import Cadastre.Metadata.Function
import Cadastre.Metadata.Schema
import Cadastre.Metadata.Table
import Cadastre.NdArray
import Cadastre.Power
import Cadastre.Proofs.AcceptedCalls
import Cadastre.Proofs.Action
import Cadastre.Proofs.AppendOnly
import Cadastre.Proofs.Archive
import Cadastre.Proofs.ArrayBuffers
import Cadastre.Proofs.Atomicity
import Cadastre.Proofs.Attempt
import Cadastre.Proofs.Bases
import Cadastre.Proofs.BatchedExecution
import Cadastre.Proofs.BrokenHeads
import Cadastre.Proofs.Calendar
import Cadastre.Proofs.CallBuilding
import Cadastre.Proofs.CallSites
import Cadastre.Proofs.CalledFunctions
import Cadastre.Proofs.Candidates
import Cadastre.Proofs.Chronicle
import Cadastre.Proofs.Chunking
import Cadastre.Proofs.Clean
import Cadastre.Proofs.CleanPlans
import Cadastre.Proofs.CleanReads
import Cadastre.Proofs.ColumnHistory
import Cadastre.Proofs.ColumnNames
import Cadastre.Proofs.ColumnReferences
import Cadastre.Proofs.Compaction
import Cadastre.Proofs.ComputedColumns
import Cadastre.Proofs.ConcreteTypes
import Cadastre.Proofs.Convertibility
import Cadastre.Proofs.CurrentVersion
import Cadastre.Proofs.Declarations
import Cadastre.Proofs.Directories
import Cadastre.Proofs.DirectoryPaths
import Cadastre.Proofs.Draft
import Cadastre.Proofs.Effect
import Cadastre.Proofs.EffectiveSchema
import Cadastre.Proofs.Expansions
import Cadastre.Proofs.Extension
import Cadastre.Proofs.Foreign
import Cadastre.Proofs.Foundations
import Cadastre.Proofs.Frame
import Cadastre.Proofs.FrozenSnapshot
import Cadastre.Proofs.HostCalls
import Cadastre.Proofs.Hygiene
import Cadastre.Proofs.ImageAlgebra
import Cadastre.Proofs.ImageBuffers
import Cadastre.Proofs.Independence
import Cadastre.Proofs.Integrity
import Cadastre.Proofs.Interruption
import Cadastre.Proofs.KeyRanges
import Cadastre.Proofs.Layers
import Cadastre.Proofs.Ledger
import Cadastre.Proofs.Likeness
import Cadastre.Proofs.Listing
import Cadastre.Proofs.LiveView
import Cadastre.Proofs.LoadedFunctions
import Cadastre.Proofs.NamesApart
import Cadastre.Proofs.Permanence
import Cadastre.Proofs.Pixels
import Cadastre.Proofs.Places
import Cadastre.Proofs.Positions
import Cadastre.Proofs.Reclaim
import Cadastre.Proofs.RecordFormat
import Cadastre.Proofs.References
import Cadastre.Proofs.RegistryRuns
import Cadastre.Proofs.Reloading
import Cadastre.Proofs.RetentionWindow
import Cadastre.Proofs.Roster
import Cadastre.Proofs.RoundTrip.Expr
import Cadastre.Proofs.RoundTrip.Function
import Cadastre.Proofs.RoundTrip.Records
import Cadastre.Proofs.RoundTrip.Schema
import Cadastre.Proofs.RoundTrip.Table
import Cadastre.Proofs.RoundTrip.Timestamp
import Cadastre.Proofs.RoundTrip.Uuid
import Cadastre.Proofs.RowNumbers
import Cadastre.Proofs.Run
import Cadastre.Proofs.SameAnswers
import Cadastre.Proofs.Sameness
import Cadastre.Proofs.Scan
import Cadastre.Proofs.Separation
import Cadastre.Proofs.Siblings
import Cadastre.Proofs.SingleRow
import Cadastre.Proofs.StoredFunctions
import Cadastre.Proofs.Tangles
import Cadastre.Proofs.TimeTravel
import Cadastre.Proofs.TimestampText
import Cadastre.Proofs.Tolerance
import Cadastre.Proofs.TypedCalls
import Cadastre.Proofs.TypedConversions
import Cadastre.Proofs.Typing
import Cadastre.Proofs.Updates
import Cadastre.Proofs.VersionChain
import Cadastre.Proofs.ViewCycles
import Cadastre.Proofs.ViewNames
import Cadastre.Proofs.Window
import Cadastre.Regex
import Cadastre.Regex.Reader
import Cadastre.Registry
import Cadastre.Report
import Cadastre.ResourcePool
import Cadastre.Signature
import Cadastre.Signature.Record
import Cadastre.Signature.Resolve
import Cadastre.SortedMap
import Cadastre.Store
import Cadastre.Store.Directory
import Cadastre.Store.Reclaim
import Cadastre.Store.Table
import Cadastre.Store.View
import Cadastre.Template
import Cadastre.Text.Blank
import Cadastre.Text.Digits
import Cadastre.Text.Hex
import Cadastre.Text.Letter
import Cadastre.Text.Shortest
import Cadastre.Timestamp
import Cadastre.Timestamp.Reader
import Cadastre.Uuid
import Cadastre.Value
import Cadastre.Value.Record
