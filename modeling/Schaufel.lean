import Schaufel.Foundation.Run
import Schaufel.Foundation.PointerChain
import Schaufel.Queue.Model
import Schaufel.Queue.Representation
import Schaufel.Foundation.KeyedFifo
import Schaufel.Queue.Steps
import Schaufel.Queue.Invariant
import Schaufel.Queue.Effects
import Schaufel.Queue.Refinement
import Schaufel.Queue.Wakeup
import Schaufel.System.Hooks
import Schaufel.System.Model
import Schaufel.System.Steps
import Schaufel.System.Flow
import Schaufel.System.Shutdown
import Schaufel.Foundation.Conveyor
import Schaufel.System.AtLeastOnce
import Schaufel.Foundation.Ownership
import Schaufel.System.Resources
import Schaufel.Foundation.Escape
import Schaufel.Postgres.Model
import Schaufel.Postgres.Batches
import Schaufel.Postgres.CopyText
import Schaufel.Foundation.BigEndian
import Schaufel.Postgres.CopyBinary
import Schaufel.Json.Timestamp
import Schaufel.Json.Needles
import Schaufel.Json.Config
import Schaufel.Json.Export
import Schaufel.Json.Exports
import Schaufel.Foundation.Utf8
import Schaufel.Foundation.Digits
import Schaufel.Foundation.Gregorian
import Schaufel.Json.Instants
import Schaufel.Json.Null
import Schaufel.Queue.HookPoints
import Schaufel.Foundation.Pipeline
import Schaufel.Redis.Consumer
import Schaufel.Config.Paths
import Schaufel.Kafka.Validate
import Schaufel.Kafka.Transactional
import Schaufel.Json.Tree
import Schaufel.Hooks.Fnv
import Schaufel.Hooks.Registry
import Schaufel.Postgres.Hosts
import Schaufel.Config.Logger
import Schaufel.Config.Validate
import Schaufel.Config.Totality
import Schaufel.Config.Accepted
import Schaufel.Foundation.Grouping
import Schaufel.Postgres.Expansion
import Schaufel.Foundation.Strtoul
import Schaufel.Kafka.PartitionLists
import Schaufel.Foundation.Alphabet
import Schaufel.Kafka.TopicPartitions
import Schaufel.Foundation.XorFold
import Schaufel.Hooks.Folding
import Schaufel.Foundation.Overwrite
import Schaufel.Postgres.Passes
import Schaufel.Foundation.JsonText
import Schaufel.Postgres.NullEscapes
import Schaufel.Redis.Producer
import Schaufel.Postgres.Cancel
import Schaufel.Config.LoggerInit
import Schaufel.Json.Metadata
import Schaufel.Hooks.Xmark
import Schaufel.Json.Normalise
import Schaufel.Json.TimestampTexts
import Schaufel.Config.LogLine
import Schaufel.File.Verbatim
import Schaufel.Json.DayCount
import Schaufel.Queue.Accounting
import Schaufel.Postgres.Connstring
import Schaufel.Config.Defaults
import Schaufel.Foundation.BucketChains
import Schaufel.Metadata.HTable
import Schaufel.Metadata.Growth
import Schaufel.Metadata.Lookup
import Schaufel.Metadata.FiniteMap
import Schaufel.Foundation.Ledger
import Schaufel.Foundation.Correspondence
import Schaufel.System.Transit
import Schaufel.System.Delivery
import Schaufel.Postgres.CopyStream
import Schaufel.Json.ExportStream
import Schaufel.Foundation.KeyedEntries
import Schaufel.Metadata.Shrinking
import Schaufel.Metadata.Deletion
import Schaufel.Metadata.Lifetime
import Schaufel.System.Relay
import Schaufel.Foundation.Progress
import Schaufel.System.Turns
import Schaufel.System.Stopping
import Schaufel.Queue.Alive
import Schaufel.System.Settling
import Schaufel.Foundation.Custody
import Schaufel.Queue.Teardown
import Schaufel.System.Leaks
import Schaufel.Config.CommandLine
import Schaufel.Config.Startup
