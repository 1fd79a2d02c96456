import AvroGraph.Binary64
import AvroGraph.Binary64.Shortest
import AvroGraph.Document
import AvroGraph.Entry
import AvroGraph.Entry.Json
import AvroGraph.Entry.Same
import AvroGraph.Identifier
import AvroGraph.Json
import AvroGraph.Json.Members
import AvroGraph.Json.Numeral
import AvroGraph.Json.Printer
import AvroGraph.Json.Reader
import AvroGraph.Json.Same
import AvroGraph.Json.SyntaxError
import AvroGraph.Name
import AvroGraph.Node
import AvroGraph.Node.Check
import AvroGraph.Node.OfJson
import AvroGraph.Node.Resolve
import AvroGraph.Options
import AvroGraph.Projection
import AvroGraph.Registry
import AvroGraph.Registry.Base
import AvroGraph.Registry.Default
import AvroGraph.Registry.Logical
import AvroGraph.Registry.Reference
import AvroGraph.Registry.Slot
import AvroGraph.Registry.TypeName
import AvroGraph.Resolver
import AvroGraph.Resolving
import AvroGraph.Schema
import AvroGraph.Schema.Reduction
import AvroGraph.Text.Blank
import AvroGraph.Text.Segments
import AvroGraph.Text.UpperCase
import AvroGraph.Violation
import AvroGraph.Writer
import AvroGraph.Proofs.Adequacy
import AvroGraph.Proofs.AdmissibleOverlays
import AvroGraph.Proofs.AppendOnly
import AvroGraph.Proofs.BaseLinks
import AvroGraph.Proofs.Blame
import AvroGraph.Proofs.Capture
import AvroGraph.Proofs.CoherentSlots
import AvroGraph.Proofs.Counterparts
import AvroGraph.Proofs.Declarations
import AvroGraph.Proofs.DefaultLiterals
import AvroGraph.Proofs.ErasedJson
import AvroGraph.Proofs.Events
import AvroGraph.Proofs.Excerpt
import AvroGraph.Proofs.Grounded
import AvroGraph.Proofs.Growth
import AvroGraph.Proofs.InStep
import AvroGraph.Proofs.Index
import AvroGraph.Proofs.KeyOrder
import AvroGraph.Proofs.Linked
import AvroGraph.Proofs.Marks
import AvroGraph.Proofs.NameLaws
import AvroGraph.Proofs.NameTable
import AvroGraph.Proofs.NewBases
import AvroGraph.Proofs.Nullability
import AvroGraph.Proofs.NullableUnions
import AvroGraph.Proofs.NumberedBases
import AvroGraph.Proofs.Overlaid
import AvroGraph.Proofs.ReadAsWritten
import AvroGraph.Proofs.ReadValues
import AvroGraph.Proofs.Recovered
import AvroGraph.Proofs.Redeclared
import AvroGraph.Proofs.ResolvedEntries
import AvroGraph.Proofs.ResolvedInFull
import AvroGraph.Proofs.Rewalk
import AvroGraph.Proofs.RoundTrip
import AvroGraph.Proofs.SlotBases
import AvroGraph.Proofs.SpelledNames
import AvroGraph.Proofs.Spelling
import AvroGraph.Proofs.StrictBases
import AvroGraph.Proofs.StrictNames
import AvroGraph.Proofs.TargetNames
import AvroGraph.Proofs.TypeGraph
import AvroGraph.Proofs.Typings
import AvroGraph.Proofs.Unadorned
import AvroGraph.Proofs.UnknownOverlays
import AvroGraph.Proofs.Visits
import AvroGraph.Proofs.WellFormedEntries
import AvroGraph.Proofs.Whole
import AvroGraph.Proofs.WrittenOnce
