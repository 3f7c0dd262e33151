import QuotaService.Config.Types
import QuotaService.Lib.Machine
import QuotaService.Buckets.Memory
import QuotaService.Config.Defaults
import QuotaService.Config.Diff
import QuotaService.Buckets.RateBound
import QuotaService.Buckets.Equivalence
import QuotaService.Buckets.Expiry
import QuotaService.Lib.Selection
import QuotaService.Server.Zookeeper
import QuotaService.Config.Mutable
import QuotaService.Server.Updates
import QuotaService.Lib.Directory
import QuotaService.Container.Model
import QuotaService.Container.Spec
import QuotaService.Container.Update
import QuotaService.Container.Reconcile
import QuotaService.Container.SharedKeys
import QuotaService.Container.Objects
import QuotaService.Container.Ledger
import QuotaService.Container.Concurrent
import QuotaService.Container.Reaping
import QuotaService.Container.Accounting
import QuotaService.Lib.Separator
import QuotaService.Buckets.Names
import QuotaService.Lib.Notifier
import QuotaService.Server.Notifications
import QuotaService.Server.Admin
import QuotaService.Server.Mysql
import QuotaService.Server.ZkWatch
import QuotaService.Container.Locks
import QuotaService.Container.Answering
import QuotaService.Lib.Json
import QuotaService.Lib.JavaScript
import QuotaService.Config.Json
import QuotaService.Server.Console
import QuotaService.Config.Places
import QuotaService.Server.Cli
import QuotaService.Server.MysqlPolls
import QuotaService.Server.Rest
import QuotaService.Lib.Channel
import QuotaService.Server.Events
import QuotaService.Server.Grpc
import QuotaService.Server.Startup
import QuotaService.Buckets.Overflow
import QuotaService.Buckets.Ideal
import QuotaService.Lib.Ranking
import QuotaService.Lib.Tally
import QuotaService.Stats.Listeners
import QuotaService.Stats.Agreement
import QuotaService.Buckets.Reached
import QuotaService.Container.Provenance
import QuotaService.Container.Waiting
import QuotaService.Server.Allowing
import QuotaService.Server.Client
import QuotaService.Stats.Batching
import QuotaService.Lib.RefCount
import QuotaService.Buckets.RefCounts
import QuotaService.Buckets.Reconnect
import QuotaService.Server.History
import QuotaService.Server.Slots
import QuotaService.Server.ReadBack
import QuotaService.Lib.Yaml
import QuotaService.Config.Yaml
import QuotaService.Config.Formats
import QuotaService.Server.Submission
import QuotaService.Server.Datastore
import QuotaService.Server.ZkPersist
import QuotaService.Lib.Files
import QuotaService.Server.Disk
import QuotaService.Buckets.Prefetch
import QuotaService.Container.SearchOrder
import QuotaService.Lib.Timeline
import QuotaService.Server.Editing
import QuotaService.Server.Merging
import QuotaService.Container.Placement
import QuotaService.Container.Watching
import QuotaService.Container.Idleness
import QuotaService.Container.Registry
import QuotaService.Buckets.Renewal
import QuotaService.Buckets.Fleet
import QuotaService.Container.Metering
import QuotaService.Server.Serving
import QuotaService.Buckets.Relief
import QuotaService.Container.Patrol
import QuotaService.Server.Convergence
import QuotaService.Lib.Progress
import QuotaService.Server.Settling
import QuotaService.Lib.Wire
import QuotaService.Lib.WireMessages
import QuotaService.Config.Proto
import QuotaService.Server.Reporting
import QuotaService.Lib.Windows
import QuotaService.Server.Usage
import QuotaService.Lib.Expiring
import QuotaService.Stats.Hourly
import QuotaService.Server.Overwriting
