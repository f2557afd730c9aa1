import LivingBalancer.Lib.Runs
import LivingBalancer.Lib.Tables
import LivingBalancer.Lib.Dict
import LivingBalancer.Lib.Pointwise
import LivingBalancer.Lib.PyText
import LivingBalancer.Lib.TimedLease
import LivingBalancer.Lib.Totals
import LivingBalancer.Balancer.Account
import LivingBalancer.Balancer.Quota
import LivingBalancer.Balancer.SelectAccount
import LivingBalancer.Balancer.Stickiness
import LivingBalancer.Balancer.Runtime
import LivingBalancer.Balancer.Leases
import LivingBalancer.Balancer.Calls
import LivingBalancer.Balancer.Replicas
import LivingBalancer.Balancer.LeaseCalls
import LivingBalancer.Balancer.LeaseSafety
import LivingBalancer.Balancer.CallSteps
import LivingBalancer.Balancer.HardBlock
import LivingBalancer.Balancer.StickySync
import LivingBalancer.Balancer.Cooldown
import LivingBalancer.Bridge.DurableSession
import LivingBalancer.Bridge.Fencing
import LivingBalancer.Bridge.Maintenance
import LivingBalancer.Bridge.LeaseHolding
import LivingBalancer.Bridge.AliasAccounts
import LivingBalancer.Bridge.ScopeIsolation
import LivingBalancer.Bridge.Forwarding
import LivingBalancer.Bridge.ForwardAuth
import LivingBalancer.Bridge.ForwardRoundTrip
import LivingBalancer.Bridge.Connect
import LivingBalancer.Bridge.ConnectLeases
import LivingBalancer.Bridge.QueueAccounting
import LivingBalancer.Bridge.EventMatching
import LivingBalancer.Bridge.EventAttribution
import LivingBalancer.ApiKeys.Limits
import LivingBalancer.ApiKeys.Operations
import LivingBalancer.ApiKeys.Books
import LivingBalancer.ApiKeys.Sessions
import LivingBalancer.ApiKeys.Accounting
import LivingBalancer.ApiKeys.Erasure
import LivingBalancer.ApiKeys.LimitEdit
import LivingBalancer.ApiKeys.ExpiredLimits
import LivingBalancer.Accounts.RefreshTask
import LivingBalancer.Accounts.RefreshRace
import LivingBalancer.Accounts.RotationKept
import LivingBalancer.Accounts.RefreshClaims
import LivingBalancer.Accounts.ClaimIds
import LivingBalancer.Accounts.ExchangeOnce
import LivingBalancer.Accounts.UsageRefresh
import LivingBalancer.Accounts.UsageRecovery
import LivingBalancer.Accounts.UsageDeactivation
import LivingBalancer.Usage.Rollup
import LivingBalancer.Usage.Windows
import LivingBalancer.Usage.Consolidation
import LivingBalancer.Usage.Conservation
import LivingBalancer.Scheduling.LeaderLease
import LivingBalancer.Scheduling.LocalLeader
import LivingBalancer.Lib.Readings
import LivingBalancer.Caches.RoutingMarks
import LivingBalancer.Caches.SelectionInputs
import LivingBalancer.Caches.SelectionCache
import LivingBalancer.Lib.Shares
import LivingBalancer.Proxy.CapPartitioning
import LivingBalancer.Proxy.CapHysteresis
import LivingBalancer.Lib.FirstSeen
import LivingBalancer.Proxy.ToolCallDedupe
import LivingBalancer.Proxy.ToolCallIdentity
import LivingBalancer.Proxy.FirstOccurrences
import LivingBalancer.Lib.SlidingWindow
import LivingBalancer.Dashboard.RateLimiter
import LivingBalancer.Lib.Streaks
import LivingBalancer.Resilience.CircuitBreaker
import LivingBalancer.Resilience.BreakerTrips
import LivingBalancer.Proxy.StickySessions
import LivingBalancer.Lib.Precedence
import LivingBalancer.Lib.JsonText
import LivingBalancer.Lib.JsonReading
import LivingBalancer.Lib.JsonRoundTrip
import LivingBalancer.Lib.JsonScan
import LivingBalancer.Lib.JsonAscii
import LivingBalancer.Proxy.SseEvents
import LivingBalancer.Chat.ToolCallDeltas
import LivingBalancer.Chat.ChatCompletions
import LivingBalancer.Chat.ToolCallSlots
import LivingBalancer.Chat.StreamProtocol
import LivingBalancer.Chat.StreamFolding
import LivingBalancer.Chat.MessageCoercion
import LivingBalancer.Chat.ChatRequest
import LivingBalancer.Chat.MessageTexts
import LivingBalancer.Chat.Conversation
import LivingBalancer.Requests.InputItems
import LivingBalancer.Requests.ResponsesRequest
import LivingBalancer.Requests.SettledItems
import LivingBalancer.Requests.ForwardHop
import LivingBalancer.Requests.StoredContext
import LivingBalancer.Requests.CompactItems
import LivingBalancer.Requests.CompactReconcile
import LivingBalancer.Requests.CompactRequired
import LivingBalancer.Requests.CompactTrim
import LivingBalancer.Bridge.AnchoredTrim
import LivingBalancer.Bridge.AnchorRuns
import LivingBalancer.Lib.IpAddress
import LivingBalancer.Proxy.ForwardedFor
import LivingBalancer.QuotaPlanner.Warmups
import LivingBalancer.QuotaPlanner.WarmupBudget
import LivingBalancer.ResetCredits.RedeemLedger
import LivingBalancer.ResetCredits.RedeemOnce
import LivingBalancer.Caches.InvalidationBus
import LivingBalancer.Caches.InvalidationDelivery
import LivingBalancer.Balancer.HealthTiers
import LivingBalancer.Scheduling.AutomationClaims
import LivingBalancer.Scheduling.AutomationRuns
import LivingBalancer.Accounts.DeviceFlows
import LivingBalancer.Accounts.DeviceWinner
import LivingBalancer.Tokdash.UsageStore
import LivingBalancer.Tokdash.FileSync
import LivingBalancer.Lib.Utf8
import LivingBalancer.Tokdash.JsonlParsers
import LivingBalancer.Tokdash.TailSync
import LivingBalancer.Tokdash.CopilotRecords
import LivingBalancer.Tokdash.SourceSync
import LivingBalancer.Tokdash.SessionRows
import LivingBalancer.Tokdash.SessionParsers
import LivingBalancer.Tokdash.Aggregation
import LivingBalancer.Tokdash.QuotaLines
import LivingBalancer.Tokdash.QuotaWatermarks
import LivingBalancer.Balancer.Eligibility
import LivingBalancer.Balancer.BudgetPreference
import LivingBalancer.Balancer.StickyRebinding
import LivingBalancer.Balancer.StickyOutage
import LivingBalancer.Balancer.Selections
import LivingBalancer.Lib.LeastKey
import LivingBalancer.Balancer.Strategies
import LivingBalancer.Balancer.SelectionOrder
import LivingBalancer.Balancer.SelectionTiers
import LivingBalancer.Balancer.BlockRecovery
import LivingBalancer.Lib.Backtracking
import LivingBalancer.Balancer.RetryHint
import LivingBalancer.Balancer.RetryDeadline
import LivingBalancer.Lib.LocalTime
import LivingBalancer.Scheduling.ScheduleSlots
import LivingBalancer.Lib.GreedyMatching
import LivingBalancer.Proxy.ReplayedDedupe
import LivingBalancer.Proxy.ReplayedPairing
import LivingBalancer.Lib.Varint
import LivingBalancer.Tokdash.Protobuf
import LivingBalancer.Lib.FirstOccurrence
import LivingBalancer.Scheduling.DispatchPlan
import LivingBalancer.Scheduling.StaggeredIdle
import LivingBalancer.Accounts.AdditionalLimits
import LivingBalancer.Lib.JsonKeyOrder
import LivingBalancer.Requests.CanonicalTools
import LivingBalancer.Usage.HistoryPruning
import LivingBalancer.Lib.GapChains
import LivingBalancer.Lib.RunningHigh
import LivingBalancer.Tokdash.QuotaConsumption
import LivingBalancer.Requests.StrictSchema
import LivingBalancer.Lib.StreamDecoders
import LivingBalancer.Requests.BodyDecompression
import LivingBalancer.Chat.ToolCallRouting
import LivingBalancer.Lib.Delimited
import LivingBalancer.Bridge.StreamBlocks
import LivingBalancer.Lib.Separators
import LivingBalancer.Proxy.UpstreamEvents
import LivingBalancer.Proxy.HttpClients
import LivingBalancer.Proxy.HttpClientRuns
import LivingBalancer.Lib.Rendezvous
import LivingBalancer.Bridge.OwnerRing
