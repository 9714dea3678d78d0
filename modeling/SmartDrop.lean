import SmartDrop.ApiKeys.Law
import SmartDrop.ApiKeys.Races
import SmartDrop.Airdrops.Lifecycle
import SmartDrop.Airdrops.Expiry
import SmartDrop.Airdrops.Funding
import SmartDrop.Auth.AdminSessions
import SmartDrop.Auth.AuditHistory
import SmartDrop.Auth.SessionCreation
import SmartDrop.Auth.Jwt
import SmartDrop.Auth.Lockout
import SmartDrop.Auth.LockoutWindow
import SmartDrop.Auth.Logout
import SmartDrop.Auth.SessionLifetime
import SmartDrop.Auth.Passwords
import SmartDrop.Auth.Rotation
import SmartDrop.Idempotency.AtMostOnce
import SmartDrop.Idempotency.Isolation
import SmartDrop.Indexer.Poller
import SmartDrop.Indexer.Progress
import SmartDrop.Indexer.Fields
import SmartDrop.Indexer.Replays
import SmartDrop.Indexer.Cursor
import SmartDrop.Utils.BulkOperations
import SmartDrop.Utils.Probes
import SmartDrop.Utils.Semaphore
import SmartDrop.Metrics.Exposition
import SmartDrop.Utils.StablePagination
import SmartDrop.Utils.StreamCsv
import SmartDrop.Utils.ContentDisposition
import SmartDrop.Webhooks.Subscriptions
import SmartDrop.Webhooks.Finality
import SmartDrop.Webhooks.Secrets
import SmartDrop.Webhooks.Signing
import SmartDrop.Webhooks.TwoChecks
import SmartDrop.Webhooks.Pinning
import SmartDrop.Lib.Crew
import SmartDrop.Webhooks.Fleet
import SmartDrop.Webhooks.Charge
import SmartDrop.Webhooks.Errands
import SmartDrop.Webhooks.LostRetries
import SmartDrop.Webhooks.Rounds
import SmartDrop.Webhooks.RetryQueue
import SmartDrop.Airdrops.Recipients
import SmartDrop.Airdrops.Additions
import SmartDrop.Airdrops.Amounts
import SmartDrop.Airdrops.Reencoding
import SmartDrop.Webhooks.Binding
import SmartDrop.Indexer.Batches
import SmartDrop.Webhooks.StatusIndex
import SmartDrop.Webhooks.Cascade
import SmartDrop.Webhooks.Routes
import SmartDrop.Webhooks.Metrics
import SmartDrop.Airdrops.ExpiryPass
import SmartDrop.Indexer.Migration
import SmartDrop.Webhooks.Deduplication
import SmartDrop.Webhooks.Redispatch
import SmartDrop.Leader.Exclusion
import SmartDrop.Leader.Belief
import SmartDrop.Leader.Jobs
import SmartDrop.Webhooks.Overlaps
import SmartDrop.Webhooks.Changes
import SmartDrop.Ws.Consistency
import SmartDrop.Ws.Messages
import SmartDrop.Database.Encryption
import SmartDrop.Database.LockOrder
import SmartDrop.Database.MigrationSafety
import SmartDrop.Database.Transaction
import SmartDrop.Airdrops.Ledger
import SmartDrop.Jobs.JobQueue
import SmartDrop.Jobs.Bounds
import SmartDrop.Alerts.Firing
import SmartDrop.Alerts.Isolation
import SmartDrop.Lib.DistinctTexts
import SmartDrop.Lib.ShortestText
import SmartDrop.Lib.Sorting
import SmartDrop.Utils.Opening
import SmartDrop.Cache.WarmLock
import SmartDrop.Cache.Warming
import SmartDrop.Cache.SingleFlight
import SmartDrop.Cache.Stampede
import SmartDrop.Logging.Redaction
import SmartDrop.Middleware.Csrf
import SmartDrop.Middleware.HttpsRedirect
import SmartDrop.Middleware.RateLimit
import SmartDrop.Prices.InFlight
import SmartDrop.Prices.Oracle
import SmartDrop.Flags.FeatureFlags
import SmartDrop.Webhooks.Backoff
import SmartDrop.Indexer.Backoff
import SmartDrop.Jobs.RetryWrapper
import SmartDrop.Leader.StartStop
import SmartDrop.Ws.PriceUpdates
import SmartDrop.Lib.Middle
import SmartDrop.Prices.Robustness
import SmartDrop.Lib.Pages
import SmartDrop.Indexer.Reading
import SmartDrop.Database.PoolMonitor
import SmartDrop.Lib.Throttle
