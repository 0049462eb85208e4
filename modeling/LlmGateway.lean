import LlmGateway.Lib.Digits
import LlmGateway.Lib.Separated
import LlmGateway.Lib.Decimals
import LlmGateway.Lib.Lru
import LlmGateway.Lib.LruInclusion
import LlmGateway.Lib.LruEviction
import LlmGateway.Lib.Scan
import LlmGateway.Lib.Ranking
import LlmGateway.Lib.Attempts
import LlmGateway.Lib.FixedWindow
import LlmGateway.Lib.WindowCount
import LlmGateway.Lib.Tally
import LlmGateway.Lib.Rotation
import LlmGateway.Lib.Unwinding
import LlmGateway.Lib.Writes
import LlmGateway.Lib.OrderedMap
import LlmGateway.Lib.Runs
import LlmGateway.Lib.Samples
import LlmGateway.Lib.Cursor
import LlmGateway.Lib.Programs
import LlmGateway.Lib.Interleaving
import LlmGateway.Platform
import LlmGateway.Json
import LlmGateway.Types
import LlmGateway.Config
import LlmGateway.TokenCounter
import LlmGateway.Cache
import LlmGateway.CacheKey
import LlmGateway.CacheRefinement
import LlmGateway.Sweep
import LlmGateway.CacheHistory
import LlmGateway.CacheCapacity
import LlmGateway.Eviction
import LlmGateway.CacheAccounts
import LlmGateway.Auth
import LlmGateway.KeyRevocation
import LlmGateway.Providers
import LlmGateway.Router
import LlmGateway.RateLimiter
import LlmGateway.CostTracker
import LlmGateway.Metrics
import LlmGateway.LatencyWindow
import LlmGateway.ChatCompletions
import LlmGateway.RequestParsing
import LlmGateway.Routing
import LlmGateway.Criteria
import LlmGateway.HealthReports
import LlmGateway.HealthRecords
import LlmGateway.RouterRuns
import LlmGateway.RoundRobin
import LlmGateway.Choice
import LlmGateway.Optimality
import LlmGateway.Estimates
import LlmGateway.ForcedModel
import LlmGateway.Registration
import LlmGateway.Calls
import LlmGateway.Fallback
import LlmGateway.HandlerCalls
import LlmGateway.Chains
import LlmGateway.Serving
import LlmGateway.Recovery
import LlmGateway.FailureTraffic
import LlmGateway.Ledger
import LlmGateway.Pricing
import LlmGateway.Summary
import LlmGateway.CachedRequests
import LlmGateway.Admission
import LlmGateway.LimiterRuns
import LlmGateway.ReferenceLimiter
import LlmGateway.ClockedCalls
import LlmGateway.RetryAfter
import LlmGateway.TokenLimit
import LlmGateway.Tokenizer
import LlmGateway.Rechunking
import LlmGateway.Retries
import LlmGateway.ReplyParsing
import LlmGateway.ConfigFile
import LlmGateway.Startup
import LlmGateway.BadFiles
import LlmGateway.ConfigPatch
import LlmGateway.InFlight
import LlmGateway.Identity
import LlmGateway.PricingPaths
import LlmGateway.Exposition
import LlmGateway.Operations
import LlmGateway.Handlers
import LlmGateway.SerialRuns
import LlmGateway.Permissions
import LlmGateway.CounterAccounts
import LlmGateway.Scrape
import LlmGateway.SharedLedger
import LlmGateway.SharedCache
import LlmGateway.SharedHealth
import LlmGateway.Progress
import LlmGateway.Privileges
import LlmGateway.SharedLimiter
import LlmGateway.RequestBodies
