import Harvest.Data.Value.Display
import Harvest.Data.Json.Parser
import Harvest.Data.Json.Printer
import Harvest.Text.Upper
import Harvest.Data.Number
import Harvest.GraphQL.Document
import Harvest.GraphQL.Token.Lexer
import Harvest.GraphQL.Document.Parser
import Harvest.GraphQL.Document.Printer
import Harvest.GraphQL.Document.Paths
import Harvest.GraphQL.Schema.Standard
import Harvest.GraphQL.Suggestion
import Harvest.Data.Value.Abridged
import Harvest.GraphQL.Literal.OfValue
import Harvest.GraphQL.Schema.Introspection
import Harvest.Data.Keyed
import Harvest.Entity.Discovery
import Harvest.Entity.Record
import Harvest.Storage.FragmentStore
import Harvest.Remote
import Harvest.Failure
import Harvest.Entity.DefaultFragment
import Harvest.Entity.DataFragment
import Harvest.Entity.Listing
import Harvest.Remote.Introspect
import Harvest.Paging.Contract
import Harvest.Paging.Walk
import Harvest.Remote.Http
import Harvest.Entity.Compilation
import Harvest.Config.File
import Harvest.Storage.NodeMemory
import Harvest.Storage.NodeLines
import Harvest.Sourcing
import Harvest.Command
import Harvest.Main
import Harvest.Proofs.Sourcing.Moves
import Harvest.Proofs.Command.FatalFailure
import Harvest.Proofs.Sourcing.Completeness
import Harvest.Proofs.Sourcing.Containment
import Harvest.Proofs.Sourcing.Independence
import Harvest.Proofs.Paging.Outcomes
import Harvest.Proofs.Plan.Partition
import Harvest.Proofs.Sourcing.Moment
import Harvest.Proofs.Sourcing.Reporting
import Harvest.Proofs.Sourcing.Cancellation
import Harvest.Proofs.GraphQL.Schemas
import Harvest.Proofs.Entity.DefaultFragments
import Harvest.Proofs.Entity.Filters
import Harvest.Proofs.Plan.Alignment
import Harvest.Proofs.GraphQL.Names
import Harvest.Proofs.Plan.Resolution
import Harvest.Proofs.Sourcing.Sequence
import Harvest.Proofs.Paging.Merging
import Harvest.Proofs.Plan.Verdicts
import Harvest.Proofs.Remote.Answers
import Harvest.Proofs.Command.Endings
import Harvest.Proofs.Data.Json
import Harvest.Proofs.Storage.Deliveries
import Harvest.Proofs.Entity.NodeIds
import Harvest.Proofs.GraphQL.TypeNames
import Harvest.Proofs.Sourcing.Memory
import Harvest.Proofs.GraphQL.SchemaNames
import Harvest.Proofs.Entity.Discovery
import Harvest.Proofs.Plan.Separation
import Harvest.Proofs.Sourcing.Neighbours
import Harvest.Proofs.Entity.DocumentTexts
import Harvest.Proofs.Plan.Generation
import Harvest.Proofs.Entity.FilterParts
import Harvest.Proofs.Entity.MergedListings
import Harvest.Proofs.Entity.ListingShapes
import Harvest.Proofs.Entity.FragmentAcceptance
import Harvest.Proofs.Paging.EmptyPages
import Harvest.Proofs.Paging.Offsets
import Harvest.Proofs.Storage.Directories
import Harvest.Proofs.Config.Settings
import Harvest.Proofs.Config.Saving
import Harvest.Proofs.Entity.Addresses
