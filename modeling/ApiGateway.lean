import ApiGateway.Runs
import ApiGateway.Tables
import ApiGateway.Fallible
import ApiGateway.Delimiters
import ApiGateway.Cycles
import ApiGateway.Walks
import ApiGateway.TokenBucket
import ApiGateway.Recency
import ApiGateway.CircuitBreaker
import ApiGateway.BreakerTrace
import ApiGateway.LateOutcomes
import ApiGateway.Strings
import ApiGateway.Http
import ApiGateway.ProxyHandler
import ApiGateway.ClientFailures
import ApiGateway.LoadBalancer
import ApiGateway.FairRotation
import ApiGateway.HealthChecker
import ApiGateway.RedisLimiter
import ApiGateway.RedisExpiry
import ApiGateway.Config
import ApiGateway.WellFormedConfig
import ApiGateway.MemoryLimiter
import ApiGateway.CleanupRaces
import ApiGateway.ServiceLimiter
import ApiGateway.CacheKey
import ApiGateway.Lru
import ApiGateway.LruRep
import ApiGateway.LruRuns
import ApiGateway.WastedEviction
import ApiGateway.CacheControl
import ApiGateway.EntityTags
import ApiGateway.CacheDirectives
import ApiGateway.CacheServe
import ApiGateway.CacheFlights
import ApiGateway.StoredResponses
import ApiGateway.CacheBounds
import ApiGateway.Stampede
import ApiGateway.VaryMemory
import ApiGateway.Validators
import ApiGateway.CoalescedVary
import ApiGateway.Compress
import ApiGateway.CompressBody
import ApiGateway.CompressDecision
import ApiGateway.AcceptEncoding
import ApiGateway.NetHttp
import ApiGateway.Recoverer
import ApiGateway.CompressedCache
import ApiGateway.Auth
import ApiGateway.ProxyRewrite
import ApiGateway.ServiceChain
import ApiGateway.SafeConfig
import ApiGateway.UpstreamTarget
import ApiGateway.Accounting
import ApiGateway.ConcurrencyLimit
import ApiGateway.ProtectedService
import ApiGateway.RedisKeys
import ApiGateway.Descent
import ApiGateway.RequestLife
import ApiGateway.ServiceProgress
import ApiGateway.LimiterCalls
import ApiGateway.CacheFreshness
import ApiGateway.UpstreamBreakers
import ApiGateway.Startup
import ApiGateway.UpstreamTraffic
import ApiGateway.Readers
import ApiGateway.RequestBody
import ApiGateway.RequestIds
import ApiGateway.ForwardedPath
import ApiGateway.OrdersService
import ApiGateway.LogFanout
import ApiGateway.GatewayRuns
import ApiGateway.Fleet
